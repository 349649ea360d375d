/-
# Who holds the references

An `Account` says how many references of each kind to each object somebody holds.  A heap
is balanced with an account of all references if each tally is the number of references
of its kind, an object with none left is destroyed if there ever was one, and the journal
holds the drop of each destroyed payload once (`Heap.Balanced`).

Payloads are among the holders: a live payload owns the references that its destructor
releases.  What everybody else holds is kept in a heap's books (`Heap.Books`).  To take a
reference, to change its kind, or to hand it over to a payload moves it in the books; to
release it strikes it out, and the cascade that this sets off strikes out nothing else,
since a destructor only releases what its payload owned (`Heap.Books.release`).

If `strict` holds, no destroyed object is referred to again.  The objects of `met` are
those to which there was a reference at some time.
-/

import EngineHandles.Proofs.Heap.Settle
import Mathlib.Algebra.Group.Pi.Basic

namespace EngineHandles

/-- How many references of each kind to each object somebody holds. -/
abbrev Account : Type := ObjectId → RefKind → Nat

namespace Account

@[simp] theorem add_apply (A B : Account) (o : ObjectId) (k : RefKind) :
    (A + B) o k = A o k + B o k := rfl

/-- One reference. -/
def one (o : ObjectId) (k : RefKind) : Account := fun x l => if x = o ∧ l = k then 1 else 0

@[simp] theorem one_self (o : ObjectId) (k : RefKind) : one o k o k = 1 := if_pos ⟨rfl, rfl⟩

theorem one_same (o : ObjectId) (k l : RefKind) : one o k o l = if l = k then 1 else 0 := by
  rw [one]
  simp only [true_and]

theorem one_of_ne {o x : ObjectId} (h : x ≠ o) (k l : RefKind) : one o k x l = 0 :=
  if_neg fun he => h he.1

/-- A reference to one object is none to another. -/
theorem add_one_of_ne {o x : ObjectId} (h : x ≠ o) (A : Account) (k : RefKind) :
    (A + one o k) x = A x := by
  funext l
  rw [add_apply, one_of_ne h, Nat.add_zero]

/-- All references of an account to an object. -/
def total (A : Account) (o : ObjectId) : Nat := A o .strong + A o .weak

theorem le_total (A : Account) (o : ObjectId) (k : RefKind) : A o k ≤ A.total o := by
  rw [total]
  cases k <;> omega

@[simp] theorem total_add (A B : Account) (o : ObjectId) :
    (A + B).total o = A.total o + B.total o := by
  simp only [total, add_apply]
  omega

@[simp] theorem total_one_self (o : ObjectId) (k : RefKind) : (one o k).total o = 1 := by
  cases k <;> simp [total, one]

theorem total_one_le (x : ObjectId) (k : RefKind) (o : ObjectId) : (one x k).total o ≤ 1 := by
  by_cases he : o = x
  · rw [he]
    exact Nat.le_of_eq (total_one_self x k)
  · simp [total, one_of_ne he]

theorem total_eq_zero_iff (A : Account) (o : ObjectId) : A.total o = 0 ↔ ∀ k, A o k = 0 := by
  rw [total]
  constructor
  · intro h k
    cases k <;> omega
  · intro h
    rw [h, h]

theorem sum_apply (As : List Account) (o : ObjectId) (k : RefKind) :
    As.sum o k = (As.map fun A => A o k).sum := by
  induction As with
  | nil => rfl
  | cons A As ih => rw [List.sum_cons, add_apply, ih, List.map_cons, List.sum_cons]

theorem total_le_sum {α : Type} {l : List α} {a : α} (ha : a ∈ l) (f : α → Account)
    (o : ObjectId) : (f a).total o ≤ (l.map f).sum.total o := by
  obtain ⟨pre, post, rfl⟩ := List.append_of_mem ha
  rw [List.map_append, List.map_cons, List.sum_append, List.sum_cons, total_add, total_add]
  omega

/-- A sum has no more references than bounds of its parts allow. -/
theorem total_sum_le {α : Type} {l : List α} {f : α → Account} {g : α → Nat} {o : ObjectId}
    (h : ∀ a ∈ l, (f a).total o ≤ g a) : (l.map f).sum.total o ≤ (l.map g).sum := by
  induction l with
  | nil => exact Nat.le_refl 0
  | cons a l ih =>
    have ha := h a List.mem_cons_self
    have hl := ih fun b hb => h b (List.mem_cons_of_mem _ hb)
    rw [List.map_cons, List.sum_cons, total_add, List.map_cons, List.sum_cons]
    omega

/-- The references that operations release. -/
def released (ops : List TallyOp) : Account := fun o k => ops.count (.release o k)

@[simp] theorem released_nil : released [] = 0 := rfl

theorem released_cons (o : ObjectId) (k : RefKind) (ops : List TallyOp) :
    released (.release o k :: ops) = released ops + one o k := by
  funext x l
  simp only [released, one, add_apply, List.count_cons, beq_iff_eq, TallyOp.release.injEq]
  congr 1
  simp only [eq_comm]

theorem total_released_le (ops : List TallyOp) (o : ObjectId) :
    (released ops).total o ≤ ops.length := by
  induction ops with
  | nil => exact Nat.le_refl 0
  | cons op ops ih =>
    simp only [total, released, List.count_cons, List.length_cons, beq_iff_eq] at ih ⊢
    by_cases hs : op = .release o .strong
    · rw [if_pos hs, if_neg (by rw [hs]; exact nofun)]
      omega
    · rw [if_neg hs]
      split <;> omega

theorem released_append (xs ys : List TallyOp) :
    released (xs ++ ys) = released xs + released ys := by
  funext o k
  exact List.count_append

end Account

/-- Whether operations only release strong references, as destructors do. -/
def OnlyReleases (ops : List TallyOp) : Prop := ∀ op ∈ ops, ∃ o, op = .release o .strong

theorem onlyReleases_nil : OnlyReleases [] := fun _ h => nomatch h

namespace Heap

/-- Gives the payload of an object another destructor, as the embedder may do. -/
def furnish (h : Heap) (o : ObjectId) (ops : List TallyOp) : Heap :=
  { h with cells := h.cells.modify o.index fun c =>
      { c with payload := c.payload.map fun p => { p with onDrop := ops } } }

/-- The references that live payloads own. -/
def owned (h : Heap) : Account := h.inDestructors Account.released

/-- Whether payloads own strong references only: destructors do nothing but release some. -/
def OwnsStrong (h : Heap) : Prop := ∀ o, OnlyReleases (h.cell o).destructor

/-- Whether an object may be referred to anew: it was made, and, where this matters, it
is not destroyed. -/
def Admits (strict : Prop) (h : Heap) (o : ObjectId) : Prop :=
  h.contains o = true ∧ (strict → (h.cell o).isDestroyed = false)

/-- **The accounts agree:** `B` are all references that there are. -/
structure Balanced (strict : Prop) (met : ObjectId → Prop) (h : Heap) (B : Account) : Prop where
  count_eq : ∀ o k, ((h.cell o).tally.count k).toNat = B o k
  fits : ∀ o, B.total o < 2 ^ 32
  owns : ∀ o, OnlyReleases (h.cell o).destructor
  alive : strict → ∀ o, 0 < B.total o → (h.cell o).isDestroyed = false
  made : ∀ o, met o → h.contains o = true
  ended : ∀ o, met o → B.total o = 0 → (h.cell o).isDestroyed = true
  dropped : ∀ o, h.journal.toList.count (.payloadDropped o)
    = if h.contains o = true ∧ (h.cell o).isDestroyed = true then 1 else 0
  asked : strict → ∀ c, Moment.weakCalled c ∈ h.journal.toList → c.destroyed = false

variable {strict : Prop} {met : ObjectId → Prop} {h : Heap} {A B : Account} {o : ObjectId}
  {k : RefKind}

theorem isDestroyed_adjust (h : Heap) (o : ObjectId) (f : Tally → Tally) (x : ObjectId) :
    ((h.adjust o f).cell x).isDestroyed = (h.cell x).isDestroyed := by
  rw [Cell.isDestroyed, payload_adjust, Cell.isDestroyed]

theorem destructor_adjust (h : Heap) (o : ObjectId) (f : Tally → Tally) (x : ObjectId) :
    ((h.adjust o f).cell x).destructor = (h.cell x).destructor := by
  rw [Cell.destructor, payload_adjust, Cell.destructor]

@[simp] theorem contains_furnish (h : Heap) (o : ObjectId) (ops : List TallyOp) (x : ObjectId) :
    (h.furnish o ops).contains x = h.contains x := by
  rw [contains, contains, furnish, Array.size_modify]

theorem cell_furnish (h : Heap) (o : ObjectId) (ops : List TallyOp) (x : ObjectId) :
    (h.furnish o ops).cell x
      = if x = o then
          { h.cell o with payload := (h.cell o).payload.map fun p => { p with onDrop := ops } }
        else h.cell x := by
  by_cases ho : h.contains o = true
  · exact cell_modify ho _ _
  · have hno : ¬ (h.furnish o ops).contains o = true := by rwa [contains_furnish]
    split
    · next he => rw [he, cell_of_not_contains ho, cell_of_not_contains hno]; rfl
    · next he =>
      have hi : ¬ o.index = x.index := fun hi => he (by cases x; cases o; cases hi; rfl)
      rw [cell, cell, furnish, Array.getElem?_modify, if_neg hi]

theorem inDestructors_furnish {M : Type} [AddCommMonoid M] (f : List TallyOp → M)
    (ho : (h.cell o).isDestroyed = false) (ops : List TallyOp) :
    (h.furnish o ops).inDestructors f + f (h.cell o).destructor = h.inDestructors f + f ops := by
  cases hp : (h.cell o).payload with
  | none => rw [Cell.isDestroyed, hp] at ho; cases ho
  | some p =>
    have := inDestructors_modify f (contains_of_payload hp)
      (fun c => { c with payload := c.payload.map fun p => { p with onDrop := ops } }) h.journal
    simp only [hp, Option.map_some] at this
    exact this

namespace Balanced

/-- An object with a reference was made. -/
theorem contains (hb : h.Balanced strict met B) (ho : 0 < B.total o) : h.contains o = true := by
  by_contra hno
  have hzero : ∀ l, B o l = 0 := fun l => by
    rw [← hb.count_eq, cell_of_not_contains hno]
    cases l <;> rfl
  rw [(Account.total_eq_zero_iff B o).2 hzero] at ho
  exact Nat.lt_irrefl 0 ho

theorem isZero_iff (hb : h.Balanced strict met B) (o : ObjectId) :
    (h.cell o).tally.isZero = true ↔ B.total o = 0 := by
  rw [Tally.isZero_iff, Account.total_eq_zero_iff]
  simp only [hb.count_eq]

/-- What is left of a tally when a reference is taken out. -/
theorem exists_rest (hb : h.Balanced strict met (B + .one o k)) :
    ∃ rest, (h.cell o).tally.takeOne? k = some rest ∧ ∀ l, (rest.count l).toNat = B o l := by
  have hcount : ∀ l, ((h.cell o).tally.count l).toNat = B o l + if l = k then 1 else 0 := by
    intro l
    rw [hb.count_eq, Account.add_apply, Account.one_same]
  have hk : 0 < ((h.cell o).tally.count k).toNat := by simp [hcount]
  obtain ⟨rest, hrest, htaken⟩ := Tally.exists_takeOne? hk
  refine ⟨rest, hrest, fun l => ?_⟩
  have := htaken l
  rw [hcount] at this
  omega

/-- A change of the tallies of one object that is not destroyed for it. -/
theorem adjust (hb : h.Balanced strict met B) {B' : Account} {met' : ObjectId → Prop}
    (f : Tally → Tally) (ho : h.contains o = true)
    (hcount : ∀ l, ((f (h.cell o).tally).count l).toNat = B' o l)
    (hother : ∀ x, x ≠ o → B' x = B x) (hfits : B'.total o < 2 ^ 32)
    (halive : strict → 0 < B'.total o → (h.cell o).isDestroyed = false)
    (hmet : ∀ x, x ≠ o → met' x → met x)
    (hended : met' o → B'.total o = 0 → (h.cell o).isDestroyed = true) :
    (h.adjust o f).Balanced strict met' B' := by
  have htotal : ∀ x, x ≠ o → B'.total x = B.total x := fun x hx => by
    rw [Account.total, Account.total, hother x hx]
  refine ⟨fun x l => ?_, fun x => ?_, fun x => ?_, fun hs x hx => ?_, fun x hx => ?_,
    fun x hx hz => ?_, fun x => ?_, hb.asked⟩
  · rw [cell_adjust ho]
    by_cases he : x = o
    · rw [if_pos he, he]
      exact hcount l
    · rw [if_neg he, hother x he]
      exact hb.count_eq x l
  · by_cases he : x = o
    · rwa [he]
    · rw [htotal x he]
      exact hb.fits x
  · rw [destructor_adjust]
    exact hb.owns x
  · rw [isDestroyed_adjust]
    by_cases he : x = o
    · rw [he] at hx ⊢
      exact halive hs hx
    · rw [htotal x he] at hx
      exact hb.alive hs x hx
  · rw [contains_adjust]
    by_cases he : x = o
    · rwa [he]
    · exact hb.made x (hmet x he hx)
  · rw [isDestroyed_adjust]
    by_cases he : x = o
    · rw [he] at hx hz ⊢
      exact hended hx hz
    · rw [htotal x he] at hz
      exact hb.ended x (hmet x he hx) hz
  · rw [contains_adjust, isDestroyed_adjust]
    exact hb.dropped x

/-- To forget that there were references to an object. -/
theorem mono (hb : h.Balanced strict met B) {met' : ObjectId → Prop}
    (hmet : ∀ x, met' x → met x) : h.Balanced strict met' B :=
  { hb with
    made := fun x hx => hb.made x (hmet x hx)
    ended := fun x hx => hb.ended x (hmet x hx) }

/-- To remember the objects that are referred to now. -/
theorem meet (hb : h.Balanced strict met B) :
    h.Balanced strict (fun x => met x ∨ 0 < B.total x) B :=
  { hb with
    made := fun x hx => hx.elim (hb.made x) hb.contains
    ended := fun x hx hz => hx.elim (fun hx => hb.ended x hx hz) fun hp => by omega }

/-- A further reference. -/
theorem retain (hb : h.Balanced strict met B) (ho : h.Admits strict o)
    (hfits : (B + .one o k).total o < 2 ^ 32) :
    (h.retain o k).Balanced strict (fun x => met x ∨ x = o) (B + .one o k) := by
  have hpos : 0 < (B + .one o k).total o := by simp
  refine hb.adjust (·.add k) ho.1 (fun l => ?_) (fun x hx => ?_) hfits (fun hs _ => ho.2 hs)
    (fun x hx hm => hm.resolve_right hx) fun _ hz => absurd hz (Nat.ne_of_gt hpos)
  · have hle := Account.le_total (B + .one o k) o k
    rw [Account.add_apply, Account.one_self, ← hb.count_eq] at hle
    rw [Tally.toNat_count_add (Nat.lt_of_le_of_lt hle hfits), hb.count_eq,
      Account.add_apply, Account.one_same]
  · exact Account.add_one_of_ne hx B k

/-- A reference that changes its kind. -/
theorem move (hb : h.Balanced strict met (B + .one o k)) (l : RefKind) :
    (h.adjust o (·.move k l)).Balanced strict met (B + .one o l) := by
  have htotal : (B + .one o l).total o = (B + .one o k).total o := by simp
  have hpos : 0 < (B + .one o k).total o := by simp
  obtain ⟨rest, hrest, hrestB⟩ := hb.exists_rest
  refine hb.adjust (·.move k l) (hb.contains hpos) (fun j => ?_) (fun x hx => ?_)
    (htotal ▸ hb.fits o) (fun hs _ => hb.alive hs o hpos) (fun _ _ hm => hm)
    fun hm hz => hb.ended o hm (htotal ▸ hz)
  · have hfits := hb.fits o
    have hle := Account.le_total (B + .one o l) o l
    rw [htotal, Account.add_apply, Account.one_self] at hle
    rw [Tally.move, hrest]
    dsimp only
    rw [Tally.toNat_count_add (by rw [hrestB]; omega), hrestB, Account.add_apply,
      Account.one_same]
  · rw [Account.add_one_of_ne hx, Account.add_one_of_ne hx]

/-- The destruction of an object without references; whether it ever had one does not
matter before. -/
theorem destroy (hb : h.Balanced strict (fun x => met x ∧ x ≠ o) B) (ho : h.contains o = true)
    (hd : (h.cell o).isDestroyed = false) (hz : B.total o = 0) :
    (h.destroy o).2.Balanced strict met B := by
  have hcell := fun x => cell_destroy (x := x) ho
  refine ⟨fun x l => ?_, hb.fits, fun x => ?_, fun hs x hx => ?_, fun x hx => ?_,
    fun x hx hx0 => ?_, fun x => ?_, fun hs c hc => ?_⟩
  · rw [hcell]
    by_cases he : x = o
    · rw [if_pos he, he]
      exact hb.count_eq o l
    · rw [if_neg he]
      exact hb.count_eq x l
  · rw [hcell]
    split
    · exact onlyReleases_nil
    · exact hb.owns x
  · have he : x ≠ o := fun he => by rw [he, hz] at hx; exact Nat.lt_irrefl 0 hx
    rw [hcell, if_neg he]
    exact hb.alive hs x hx
  · rw [contains_destroy]
    by_cases he : x = o
    · rwa [he]
    · exact hb.made x ⟨hx, he⟩
  · rw [hcell]
    by_cases he : x = o
    · rw [if_pos he]
      rfl
    · rw [if_neg he]
      exact hb.ended x ⟨hx, he⟩ hx0
  · have := hb.dropped x
    rw [journal_destroy, List.count_append, this, contains_destroy, hcell, List.count_singleton]
    by_cases he : x = o
    · subst he
      rw [hd, if_neg fun hh => Bool.false_ne_true hh.2, if_pos (beq_self_eq_true _), if_pos rfl,
        if_pos ⟨ho, rfl⟩]
    · have hm : ¬ (Moment.payloadDropped o == Moment.payloadDropped x) = true := by
        rw [beq_iff_eq, Moment.payloadDropped.injEq]
        exact fun hh => he hh.symm
      rw [if_neg hm, Nat.add_zero, if_neg he]
  · rw [journal_destroy, List.mem_append, List.mem_singleton] at hc
    rcases hc with hc | hc
    · exact hb.asked hs c hc
    · cases hc

/-- **A reference that is let go** is struck out; if it was the last one, the object is
destroyed. -/
theorem letGo (hb : h.Balanced strict met (B + .one o k)) :
    (h.letGo o k).2.2.Balanced strict met B := by
  obtain ⟨rest, hrest, hrestB⟩ := hb.exists_rest
  have hzero : rest.isZero = true ↔ B.total o = 0 := by
    rw [Tally.isZero_iff, Account.total_eq_zero_iff]
    simp only [hrestB]
  have hpos : 0 < (B + .one o k).total o := by simp
  have ho := hb.contains hpos
  -- the tally of an object that may have no reference left says nothing about `met`
  have hadj : ∀ met', (∀ x, x ≠ o → met' x → met x) →
      (met' o → B.total o = 0 → (h.cell o).isDestroyed = true) →
      (h.adjust o fun _ => rest).Balanced strict met' B := by
    intro met' hmet hended
    refine hb.adjust _ ho hrestB (fun x hx => ?_) ?_ (fun hs _ => hb.alive hs o hpos) hmet hended
    · exact (Account.add_one_of_ne hx B k).symm
    · refine Nat.lt_of_le_of_lt ?_ (hb.fits o)
      rw [Account.total_add]
      omega
  rw [Heap.letGo, hrest]
  dsimp only
  by_cases hd : (h.cell o).isDestroyed = true
  · rw [hd, Bool.not_true, Bool.and_false, if_neg Bool.false_ne_true]
    exact hadj met (fun _ _ hm => hm) fun _ _ => hd
  · rw [Bool.not_eq_true] at hd
    rw [hd, Bool.not_false, Bool.and_true]
    by_cases hz : rest.isZero = true
    · rw [if_pos hz]
      have hforget := hadj (fun x => met x ∧ x ≠ o) (fun _ _ hm => hm.1)
        fun hm _ => absurd rfl hm.2
      refine hforget.destroy ?_ ?_ (hzero.1 hz)
      · rwa [contains_adjust]
      · rwa [isDestroyed_adjust]
    · rw [if_neg hz]
      exact hadj met (fun _ _ hm => hm) fun _ h0 => absurd (hzero.2 h0) hz

/-- A new object has no reference. -/
theorem make (hb : h.Balanced strict met B) {p : Payload} (hp : OnlyReleases p.onDrop) :
    (h.make p).2.Balanced strict met B := by
  have hnew := not_contains_make h p
  have hold : ∀ x, h.contains x = true → x ≠ (h.make p).1 := by
    rintro x hx rfl
    exact hnew hx
  have hz : B.total (h.make p).1 = 0 := by
    by_contra hne
    exact hnew (hb.contains (Nat.pos_of_ne_zero hne))
  refine ⟨fun x l => ?_, hb.fits, fun x => ?_, fun hs x hx => ?_, fun x hx => ?_,
    fun x hx hx0 => ?_, fun x => ?_, hb.asked⟩
  · rw [cell_make]
    split
    · next he =>
      rw [he, (Account.total_eq_zero_iff B _).1 hz]
      cases l <;> rfl
    · exact hb.count_eq x l
  · rw [cell_make]
    split
    · exact hp
    · exact hb.owns x
  · rw [cell_make, if_neg (hold x (hb.contains hx))]
    exact hb.alive hs x hx
  · exact (contains_make h p x).2 (.inl (hb.made x hx))
  · rw [cell_make, if_neg (hold x (hb.made x hx))]
    exact hb.ended x hx hx0
  · have := hb.dropped x
    by_cases he : x = (h.make p).1
    · rw [if_neg]
      · rw [he]
        rwa [he, if_neg fun hh => hnew hh.1] at this
      · rintro ⟨-, hh⟩
        rw [cell_make, if_pos he] at hh
        cases hh
    · have hcontains : (h.make p).2.contains x = h.contains x := by
        rw [Bool.eq_iff_iff, contains_make, or_iff_left he]
      rw [hcontains, cell_make, if_neg he]
      exact this

/-- The call of a weak callback, for an object that has a reference. -/
theorem record (hb : h.Balanced strict met B) (c : WeakCall) (hpos : 0 < B.total c.object)
    (hc : c.destroyed = (h.cell c.object).isDestroyed) :
    (h.record (.weakCalled c)).Balanced strict met B := by
  refine ⟨hb.count_eq, hb.fits, hb.owns, hb.alive, hb.made, hb.ended, fun x => ?_,
    fun hs c' hc' => ?_⟩
  · have := hb.dropped x
    rw [Heap.record, Array.toList_push, List.count_append, List.count_singleton,
      if_neg (by simp), Nat.add_zero]
    exact this
  · rw [Heap.record, Array.toList_push, List.mem_append, List.mem_singleton] at hc'
    rcases hc' with hc' | hc'
    · exact hb.asked hs c' hc'
    · obtain rfl := Moment.weakCalled.inj hc'
      rw [hc]
      exact hb.alive hs _ hpos

/-- The embedder gives the payload of an object another destructor. -/
theorem furnish (hb : h.Balanced strict met B) {ops : List TallyOp} (hops : OnlyReleases ops)
    (o : ObjectId) : (h.furnish o ops).Balanced strict met B := by
  have hd : ∀ x, ((h.furnish o ops).cell x).isDestroyed = (h.cell x).isDestroyed := fun x => by
    rw [cell_furnish]
    split
    · next he =>
      rw [he, Cell.isDestroyed, Option.isNone_map]
      rfl
    · rfl
  refine ⟨fun x l => ?_, hb.fits, fun x => ?_, fun hs x hx => ?_, fun x hx => ?_,
    fun x hx hx0 => ?_, fun x => ?_, hb.asked⟩
  · rw [cell_furnish]
    split
    · next he => rw [he]; exact hb.count_eq o l
    · exact hb.count_eq x l
  · rw [cell_furnish]
    split
    · cases hp : (h.cell o).payload with
      | none => exact onlyReleases_nil
      | some p => exact hops
    · exact hb.owns x
  · rw [hd]
    exact hb.alive hs x hx
  · rw [contains_furnish]
    exact hb.made x hx
  · rw [hd]
    exact hb.ended x hx hx0
  · rw [contains_furnish, hd]
    exact hb.dropped x

end Balanced

/-! ### What everybody but the payloads holds -/

theorem owned_adjust (h : Heap) (o : ObjectId) (f : Tally → Tally) :
    (h.adjust o f).owned = h.owned := inDestructors_adjust _ h o f

theorem owned_letGo (h : Heap) (o : ObjectId) (k : RefKind) :
    (h.letGo o k).2.2.owned + .released (h.letGo o k).2.1 = h.owned :=
  inDestructors_letGo _ Account.released_nil h o k

theorem total_owned_le (h : Heap) (o : ObjectId) : h.owned.total o ≤ h.dormant := by
  rw [dormant_eq]
  exact Account.total_sum_le fun c _ => Account.total_released_le c.destructor o

/-- What becomes due are the releases of a destructor. -/
theorem onlyReleases_letGo (h : Heap) (howns : h.OwnsStrong) (o : ObjectId) (k : RefKind) :
    OnlyReleases (h.letGo o k).2.1 := by
  unfold Heap.letGo
  split
  · exact onlyReleases_nil
  · dsimp only
    split
    · show OnlyReleases ((h.adjust o _).cell o).destructor
      rw [destructor_adjust]
      exact howns o
    · exact onlyReleases_nil

/-- **The books of a heap:** `A` are all references but those that payloads own. -/
def Books (strict : Prop) (met : ObjectId → Prop) (h : Heap) (A : Account) : Prop :=
  h.Balanced strict met (A + h.owned)

namespace Books

theorem owns (hb : h.Books strict met A) : h.OwnsStrong := Balanced.owns hb

theorem mono (hb : h.Books strict met A) {met' : ObjectId → Prop} (hmet : ∀ x, met' x → met x) :
    h.Books strict met' A := Balanced.mono hb hmet

/-- Payloads own strong references only. -/
theorem owned_weak (hb : h.Books strict met A) (o : ObjectId) : h.owned o .weak = 0 := by
  have hcells : ∀ c ∈ h.cells.toList, Account.released c.destructor o .weak = 0 := by
    intro c hc
    obtain ⟨i, hi, rfl⟩ := List.getElem_of_mem hc
    have howns := Balanced.owns hb ⟨i⟩
    rw [cell, Array.getElem?_eq_getElem hi, Option.getD_some] at howns
    rw [Account.released, List.count_eq_zero]
    intro hop
    obtain ⟨x, hx⟩ := howns _ hop
    cases hx
  rw [owned, inDestructors, Account.sum_apply, List.sum_eq_zero_iff_forall_eq_nat]
  intro n hn
  rw [List.map_map] at hn
  obtain ⟨c, hc, rfl⟩ := List.mem_map.1 hn
  exact hcells c hc

theorem retain (hb : h.Books strict met A) (ho : h.Admits strict o)
    (hfits : (A + .one o k + h.owned).total o < 2 ^ 32) :
    (h.retain o k).Books strict (fun x => met x ∨ x = o) (A + .one o k) := by
  rw [Books, Heap.retain, owned_adjust]
  rw [add_right_comm] at hfits ⊢
  exact Balanced.retain hb ho hfits

theorem weaken (hb : h.Books strict met (A + .one o .strong)) :
    (h.weaken o).Books strict met (A + .one o .weak) := by
  rw [Books, add_right_comm] at hb
  rw [Books, Heap.weaken, owned_adjust, add_right_comm]
  exact hb.move .weak

theorem strengthen (hb : h.Books strict met (A + .one o .weak)) :
    (h.strengthen o).Books strict met (A + .one o .strong) := by
  rw [Books, add_right_comm] at hb
  rw [Books, Heap.strengthen, owned_adjust, add_right_comm]
  exact hb.move .strong

/-- What a destructor releases is from then on owned by nobody else. -/
theorem letGo (hb : h.Books strict met (A + .one o k)) :
    (h.letGo o k).2.2.Books strict met (A + .released (h.letGo o k).2.1) := by
  rw [Books, add_right_comm] at hb
  rw [Books, add_assoc, add_comm (Account.released _), owned_letGo]
  exact Balanced.letGo hb

/-- **A cascade strikes out what it was given to release, and nothing else.** -/
theorem settle_released {ops : List TallyOp} (hops : OnlyReleases ops)
    (hb : h.Books strict met (A + .released ops)) : (h.settle ops).Books strict met A := by
  induction ops, h using settle_induction with
  | nil h => simpa using hb
  | cons op rest h ih =>
    obtain ⟨x, rfl⟩ := hops op List.mem_cons_self
    rw [Account.released_cons, ← add_assoc] at hb
    rw [settle_cons]
    refine ih ?_ ?_
    · intro op' hop
      rcases List.mem_append.1 hop with hop | hop
      · exact h.onlyReleases_letGo hb.owns x .strong op' hop
      · exact hops op' (List.mem_cons_of_mem _ hop)
    · rw [Account.released_append, add_comm (Account.released _), ← add_assoc]
      exact hb.letGo

/-- **A release strikes out one reference.** -/
theorem release (hb : h.Books strict met (A + .one o k)) : (h.release o k).2.Books strict met A :=
  settle_released (h.onlyReleases_letGo hb.owns o k) hb.letGo

/-- A new object takes over the references that its payload is to own. -/
theorem make {p : Payload} (hb : h.Books strict met (A + .released p.onDrop))
    (hp : OnlyReleases p.onDrop) : (h.make p).2.Books strict met A := by
  rw [Books, owned, inDestructors_make, ← add_assoc, add_right_comm]
  exact Balanced.make hb hp

/-- A live payload takes over the references that it is to own, and gives back the others. -/
theorem furnish (hb : h.Books strict met A) {ops : List TallyOp} (hops : OnlyReleases ops)
    (ho : (h.cell o).isDestroyed = false) {A' : Account}
    (hA : A + .released (h.cell o).destructor = A' + .released ops) :
    (h.furnish o ops).Books strict met A' := by
  have howned : (h.furnish o ops).owned + .released (h.cell o).destructor
      = h.owned + .released ops := inDestructors_furnish _ ho ops
  have hall : A' + (h.furnish o ops).owned = A + h.owned := by
    refine add_right_cancel (b := Account.released (h.cell o).destructor) ?_
    rw [add_assoc, howned, add_right_comm A, hA, add_right_comm A', add_assoc A']
  rw [Books, hall]
  exact Balanced.furnish hb hops o

theorem record (hb : h.Books strict met A) (c : WeakCall) (hpos : 0 < A.total c.object)
    (hc : c.destroyed = (h.cell c.object).isDestroyed) :
    (h.record (.weakCalled c)).Books strict met A := by
  refine Balanced.record hb c ?_ hc
  rw [Account.total_add]
  omega

end Books
end Heap
end EngineHandles
