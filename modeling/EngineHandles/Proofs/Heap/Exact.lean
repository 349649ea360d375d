/-
# Exact tallies

References to an object are held by whoever retained them, and a tally is only a number.  It
is the number of references held as long as nobody lets go of a reference that he does not
hold, and no tally has to count `2 ^ 32` of them.

Calls take effect one primitive step after another, those of destructors included
(`Heap.Carries.moments_eq`), and the tally of an object follows each step as the references
held do (`Heap.count_step`).  So does the payload: it goes with the release that leaves
nothing held, and with no other step (`Heap.isDestroyed_step`).  `Heap.carries_exact` says this
of every moment of every run.

Neither of its conditions is idle.  A tally that has wrapped loses all of the references that
it counted, and an object that is destroyed stays so if somebody retains it again
(`Heap.not_exact`).
-/

import Mathlib.Data.List.Induction
import EngineHandles.Proofs.Heap.Calls

namespace EngineHandles

/-- The tally to which an operation gives a referrer, if it does. -/
def TallyOp.gives? : TallyOp → Option (ObjectId × RefKind)
  | .retain o k => some (o, k)
  | .release _ _ => none
  | .weaken o => some (o, .weak)
  | .strengthen o => some (o, .strong)

/-- The object whose tally an operation changes. -/
def TallyOp.object : TallyOp → ObjectId
  | .retain o _ | .release o _ | .weaken o | .strengthen o => o

/-- Moving a referrer, if there is one to move and room for it. -/
theorem Tally.toNat_count_move {t : Tally} {k l : RefKind} (hpos : 0 < (t.count k).toNat)
    (hroom : (t.count l).toNat + 1 < 2 ^ 32) (j : RefKind) :
    ((t.move k l).count j).toNat + (if j = k then 1 else 0)
      = (t.count j).toNat + if j = l then 1 else 0 := by
  obtain ⟨rest, hrest, hcount⟩ := Tally.exists_takeOne? hpos
  have hle : (rest.count l).toNat + 1 < 2 ^ 32 := by
    have := hcount l
    omega
  rw [Tally.move, hrest]
  dsimp only
  rw [Tally.toNat_count_add hle, hcount j]
  omega

namespace Heap

variable {h h' : Heap} {o : ObjectId} {k : RefKind} {op : TallyOp} {ops pre : List TallyOp}
  {calls : List Carried}

/-! ### References held -/

/-- The references of a kind that were given, by retaining or by moving. -/
def given (o : ObjectId) (k : RefKind) (ops : List TallyOp) : Nat :=
  ops.countP fun op => op.gives? = some (o, k)

/-- The references of a kind that were taken, by releasing or by moving. -/
def taken (o : ObjectId) (k : RefKind) (ops : List TallyOp) : Nat :=
  ops.countP fun op => op.takes? = some (o, k)

/-- The references of a kind that are held after some operations on a new object. -/
def held (o : ObjectId) (k : RefKind) (ops : List TallyOp) : Nat := given o k ops - taken o k ops

/-- Whoever releases or moves a reference to `o` holds it. -/
def Honest (o : ObjectId) (ops : List TallyOp) : Prop :=
  ∀ pre op k, (pre ++ [op]).IsPrefix ops → op.takes? = some (o, k) → 0 < held o k pre

/-- Less than `2 ^ 32` references of a kind to `o` are ever held. -/
def Countable (o : ObjectId) (ops : List TallyOp) : Prop :=
  ∀ pre k, List.IsPrefix pre ops → held o k pre < 2 ^ 32

/-- Some release of `o` left nothing held. -/
def LetGo (o : ObjectId) (ops : List TallyOp) : Prop :=
  ∃ pre k, (pre ++ [.release o k]).IsPrefix ops ∧ ∀ l, held o l (pre ++ [.release o k]) = 0

theorem given_concat (o : ObjectId) (k : RefKind) (ops : List TallyOp) (op : TallyOp) :
    given o k (ops ++ [op]) = given o k ops + if op.gives? = some (o, k) then 1 else 0 := by
  rw [given, List.countP_append, List.countP_singleton]
  simp only [decide_eq_true_eq]
  rfl

theorem taken_concat (o : ObjectId) (k : RefKind) (ops : List TallyOp) (op : TallyOp) :
    taken o k (ops ++ [op]) = taken o k ops + if op.takes? = some (o, k) then 1 else 0 := by
  rw [taken, List.countP_append, List.countP_singleton]
  simp only [decide_eq_true_eq]
  rfl

theorem Honest.of_prefix (hh : Honest o ops) (hpre : pre.IsPrefix ops) : Honest o pre :=
  fun pre' op k h => hh pre' op k (h.trans hpre)

theorem Countable.of_prefix (hc : Countable o ops) (hpre : pre.IsPrefix ops) : Countable o pre :=
  fun pre' k h => hc pre' k (h.trans hpre)

theorem gives?_of_ne (ho : op.object ≠ o) (k : RefKind) : op.gives? ≠ some (o, k) := by
  rintro h
  cases op <;> cases h <;> exact ho rfl

theorem takes?_of_ne (ho : op.object ≠ o) (k : RefKind) : op.takes? ≠ some (o, k) := by
  rintro h
  cases op <;> cases h <;> exact ho rfl

/-- Nothing is given in the kind from which it is taken. -/
theorem not_gives?_of_takes? (htakes : op.takes? = some (o, k)) : op.gives? ≠ some (o, k) := by
  intro hgives
  cases op <;> cases htakes <;> cases hgives

theorem Honest.taken_le (hh : Honest o ops) (k : RefKind) : taken o k ops ≤ given o k ops := by
  induction ops using List.reverseRecOn with
  | nil => exact Nat.le_refl 0
  | append_singleton ops op ih =>
    have hle := ih (hh.of_prefix (List.prefix_append ..))
    rw [given_concat, taken_concat]
    by_cases htakes : op.takes? = some (o, k)
    · have hheld : 0 < given o k ops - taken o k ops := hh ops op k (List.prefix_refl _) htakes
      rw [if_pos htakes]
      omega
    · rw [if_neg htakes]
      exact hle.trans (Nat.le_add_right ..)

/-- **The references held** after one more honest operation. -/
theorem Honest.held_concat (hh : Honest o (ops ++ [op])) (k : RefKind) :
    held o k (ops ++ [op]) + (if op.takes? = some (o, k) then 1 else 0)
      = held o k ops + if op.gives? = some (o, k) then 1 else 0 := by
  have hle := hh.taken_le k
  have hle' := (hh.of_prefix (List.prefix_append ops [op])).taken_le k
  rw [held, held]
  rw [given_concat, taken_concat] at *
  omega

theorem honest_nil (o : ObjectId) : Honest o [] := by
  rintro pre op k hpre
  exact absurd (List.prefix_nil.1 hpre) (by simp)

theorem Honest.concat (hh : Honest o ops) (hop : ∀ k, op.takes? = some (o, k) → 0 < held o k ops) :
    Honest o (ops ++ [op]) := by
  intro pre op' k hpre htakes
  rcases List.prefix_concat_iff.1 hpre with heq | hpre
  · obtain ⟨rfl, hsame⟩ := List.append_inj' heq rfl
    cases hsame
    exact hop k htakes
  · exact hh pre op' k hpre htakes

/-- Nobody can hold `2 ^ 32` references after fewer operations. -/
theorem countable_of_length_lt (hlen : ops.length < 2 ^ 32) : Countable o ops := by
  intro pre k hpre
  calc held o k pre ≤ given o k pre := Nat.sub_le ..
    _ ≤ pre.length := List.countP_le_length
    _ ≤ ops.length := hpre.length_le
    _ < 2 ^ 32 := hlen

theorem letGo_concat_iff (o : ObjectId) (ops : List TallyOp) (op : TallyOp) :
    LetGo o (ops ++ [op]) ↔ LetGo o ops ∨
      ∃ k, op = .release o k ∧ ∀ l, held o l (ops ++ [op]) = 0 := by
  constructor
  · rintro ⟨pre, k, hpre, hzero⟩
    rcases List.prefix_concat_iff.1 hpre with heq | hpre
    · obtain ⟨rfl, hop⟩ := List.append_inj' heq rfl
      cases hop
      exact .inr ⟨k, rfl, hzero⟩
    · exact .inl ⟨pre, k, hpre, hzero⟩
  · rintro (⟨pre, k, hpre, hzero⟩ | ⟨k, rfl, hzero⟩)
    · exact ⟨pre, k, hpre.trans (List.prefix_append ..), hzero⟩
    · exact ⟨ops, k, List.prefix_refl _, hzero⟩

/-! ### One primitive step -/

theorem contains_step (h : Heap) (op : TallyOp) (x : ObjectId) :
    (h.step op).2.contains x = h.contains x := by
  cases op with
  | retain o k => exact h.contains_adjust ..
  | weaken o => exact h.contains_adjust ..
  | strengthen o => exact h.contains_adjust ..
  | release o k =>
    show (h.letGo o k).2.2.contains x = _
    rcases h.letGo_cases o k with ⟨-, he⟩ | ⟨rest, -, ⟨-, he⟩ | ⟨-, -, he⟩⟩
    · rw [he]
    · rw [he, contains_adjust]
    · rw [he, contains_destroy, contains_adjust]

theorem cell_step_of_ne (h : Heap) (ho : op.object ≠ o) : (h.step op).2.cell o = h.cell o := by
  cases op with
  | retain x k => exact (Recounts.adjust h x _).others o (Ne.symm ho)
  | weaken x => exact (Recounts.adjust h x _).others o (Ne.symm ho)
  | strengthen x => exact (Recounts.adjust h x _).others o (Ne.symm ho)
  | release x k => exact h.cell_letGo_of_ne (Ne.symm ho) k

/-- A release from a tally that is not zero leaves what taking one leaves. -/
theorem tally_letGo {rest : Tally} (hrest : (h.cell o).tally.takeOne? k = some rest) :
    ((h.letGo o k).2.2.cell o).tally = rest := by
  have ho := contains_of_takeOne? hrest
  have hrest' := tally_adjust ho fun _ => rest
  rcases h.letGo_cases o k with ⟨hnone, -⟩ | ⟨rest', hsome, hcases⟩
  · rw [hrest] at hnone
    cases hnone
  · obtain rfl : rest = rest' := Option.some.inj (hrest.symm.trans hsome)
    obtain ⟨-, he⟩ | ⟨-, -, he⟩ := hcases
    · rw [he]
      exact hrest'
    · rw [he, cell_destroy (by rwa [contains_adjust]), if_pos rfl]
      exact hrest'

/-- **The tally of an object** after one step that finds what it takes, and room for what it
gives. -/
theorem count_step (ho : h.contains o = true)
    (hpos : ∀ k, op.takes? = some (o, k) → 0 < ((h.cell o).tally.count k).toNat)
    (hroom : ∀ k, op.gives? = some (o, k) → ((h.cell o).tally.count k).toNat + 1 < 2 ^ 32)
    (l : RefKind) :
    (((h.step op).2.cell o).tally.count l).toNat + (if op.takes? = some (o, l) then 1 else 0)
      = ((h.cell o).tally.count l).toNat + if op.gives? = some (o, l) then 1 else 0 := by
  by_cases hobject : op.object = o
  · cases op with
    | retain x k =>
      obtain rfl : x = o := hobject
      have htally : ((h.step (.retain x k)).2.cell x).tally = (h.cell x).tally.add k :=
        tally_adjust ho _
      rw [htally, Tally.toNat_count_add (hroom k rfl)]
      simp [TallyOp.takes?, TallyOp.gives?, eq_comm]
    | release x k =>
      obtain rfl : x = o := hobject
      obtain ⟨rest, hrest, hcount⟩ := Tally.exists_takeOne? (hpos k rfl)
      have htally : ((h.step (.release x k)).2.cell x).tally = rest := tally_letGo hrest
      rw [htally, hcount l]
      simp [TallyOp.takes?, TallyOp.gives?, eq_comm]
    | weaken x =>
      obtain rfl : x = o := hobject
      have htally : ((h.step (.weaken x)).2.cell x).tally = (h.cell x).tally.move .strong .weak :=
        tally_adjust ho _
      have hmove := Tally.toNat_count_move (hpos .strong rfl) (hroom .weak rfl) l
      rw [htally]
      simpa [TallyOp.takes?, TallyOp.gives?, eq_comm] using hmove
    | strengthen x =>
      obtain rfl : x = o := hobject
      have htally : ((h.step (.strengthen x)).2.cell x).tally
          = (h.cell x).tally.move .weak .strong := tally_adjust ho _
      have hmove := Tally.toNat_count_move (hpos .weak rfl) (hroom .strong rfl) l
      rw [htally]
      simpa [TallyOp.takes?, TallyOp.gives?, eq_comm] using hmove
  · rw [h.cell_step_of_ne hobject, if_neg (takes?_of_ne hobject l), if_neg (gives?_of_ne hobject l)]

/-- **The payload of an object** is gone after a step if it was before, or if the step is a
release that leaves the tallies zero. -/
theorem isDestroyed_step
    (hpos : ∀ k, op.takes? = some (o, k) → 0 < ((h.cell o).tally.count k).toNat) :
    ((h.step op).2.cell o).isDestroyed = true ↔ (h.cell o).isDestroyed = true ∨
      ∃ k, op = .release o k ∧ ∀ l, (((h.step op).2.cell o).tally.count l).toNat = 0 := by
  by_cases hrelease : ∃ k, op = .release o k
  · obtain ⟨k, rfl⟩ := hrelease
    obtain ⟨rest, hrest, -⟩ := Tally.exists_takeOne? (hpos k rfl)
    have htally : ((h.step (.release o k)).2.cell o).tally = rest := tally_letGo hrest
    have hzero := rest.isZero_iff
    have ho := contains_of_takeOne? hrest
    rw [htally]
    show ((h.letGo o k).2.2.cell o).isDestroyed = true ↔ _
    rcases h.letGo_cases o k with ⟨hnone, -⟩ | ⟨rest', hsome, hcases⟩
    · rw [hrest] at hnone
      cases hnone
    · obtain rfl : rest = rest' := Option.some.inj (hrest.symm.trans hsome)
      obtain ⟨hnot, he⟩ | ⟨hall, -, he⟩ := hcases
      · rw [he, Cell.isDestroyed, payload_adjust]
        constructor
        · exact .inl
        · rintro (hd | ⟨-, -, hall⟩)
          · exact hd
          · rw [hzero.2 hall] at hnot
            exact hnot.resolve_left Bool.false_ne_true.symm
      · rw [he, cell_destroy (by rwa [contains_adjust]), if_pos rfl]
        exact iff_of_true rfl (.inr ⟨k, rfl, hzero.1 hall⟩)
  · have hpayload : ((h.step op).2.cell o).payload = (h.cell o).payload := by
      cases op with
      | retain x k => exact h.payload_adjust ..
      | weaken x => exact h.payload_adjust ..
      | strengthen x => exact h.payload_adjust ..
      | release x k =>
        have hne : (TallyOp.release x k).object ≠ o := by
          rintro rfl
          exact hrelease ⟨k, rfl⟩
        rw [h.cell_step_of_ne hne]
    rw [Cell.isDestroyed, hpayload]
    refine (or_iff_left ?_).symm
    rintro ⟨k, hk, -⟩
    exact hrelease ⟨k, hk⟩

/-! ### Runs -/

/-- Primitive steps one after another, without what they set off. -/
def stepped (h : Heap) (ops : List TallyOp) : Heap := ops.foldl (fun h op => (h.step op).2) h

theorem stepped_concat (h : Heap) (ops : List TallyOp) (op : TallyOp) :
    h.stepped (ops ++ [op]) = ((h.stepped ops).step op).2 :=
  List.foldl_append

theorem stepped_append (h : Heap) (ops ops' : List TallyOp) :
    h.stepped (ops ++ ops') = (h.stepped ops).stepped ops' :=
  List.foldl_append

theorem contains_stepped (h : Heap) (ops : List TallyOp) (x : ObjectId) :
    (h.stepped ops).contains x = h.contains x := by
  induction ops using List.reverseRecOn with
  | nil => rfl
  | append_singleton ops op ih => rw [stepped_concat, contains_step, ih]

/-- A new object: it has its payload, and nothing refers to it. -/
structure New (h : Heap) (o : ObjectId) : Prop where
  alive : (h.cell o).isDestroyed = false
  tally : ∀ k, ((h.cell o).tally.count k).toNat = 0

theorem new_make (h : Heap) (p : Payload) : (h.make p).2.New (h.make p).1 := by
  have hcell : (h.make p).2.cell (h.make p).1 = { payload := some p } := by
    rw [cell_make, if_pos rfl]
  refine ⟨?_, fun k => ?_⟩
  · rw [hcell]
    rfl
  · rw [hcell]
    cases k <;> rfl

/-- **Tallies are exact** after honest steps that are few enough to count. -/
theorem New.count_stepped (hnew : h.New o) (hh : Honest o ops) (hc : Countable o ops)
    (k : RefKind) : (((h.stepped ops).cell o).tally.count k).toNat = held o k ops := by
  induction ops using List.reverseRecOn generalizing k with
  | nil => exact hnew.tally k
  | append_singleton ops op ih =>
    have hpre : ops.IsPrefix (ops ++ [op]) := List.prefix_append ..
    have hbefore := ih (hh.of_prefix hpre) (hc.of_prefix hpre)
    have hpos : ∀ k, op.takes? = some (o, k) →
        0 < (((h.stepped ops).cell o).tally.count k).toNat := by
      intro k htakes
      rw [hbefore]
      exact hh ops op k (List.prefix_refl _) htakes
    have hroom : ∀ k, op.gives? = some (o, k) →
        (((h.stepped ops).cell o).tally.count k).toNat + 1 < 2 ^ 32 := by
      intro k hgives
      have hafter := hh.held_concat k
      rw [if_pos hgives, if_neg fun htakes => not_gives?_of_takes? htakes hgives] at hafter
      rw [hbefore, ← hafter]
      exact hc _ k (List.prefix_refl _)
    have hmade : (h.stepped ops).contains o = true := by
      rw [contains_stepped]
      exact contains_of_alive hnew.alive
    have hstep := count_step hmade hpos hroom k
    rw [hbefore, ← hh.held_concat k] at hstep
    rw [stepped_concat]
    exact Nat.add_right_cancel hstep

/-- **An object is destroyed** once a release has left nothing held. -/
theorem New.isDestroyed_stepped (hnew : h.New o) (hh : Honest o ops) (hc : Countable o ops) :
    ((h.stepped ops).cell o).isDestroyed = true ↔ LetGo o ops := by
  induction ops using List.reverseRecOn with
  | nil =>
    refine iff_of_false (Bool.eq_false_iff.1 hnew.alive) ?_
    rintro ⟨pre, k, hpre, -⟩
    exact absurd (List.prefix_nil.1 hpre) (by simp)
  | append_singleton ops op ih =>
    have hpre : ops.IsPrefix (ops ++ [op]) := List.prefix_append ..
    have hcount := hnew.count_stepped hh hc
    have hpos : ∀ k, op.takes? = some (o, k) →
        0 < (((h.stepped ops).cell o).tally.count k).toNat := by
      intro k htakes
      rw [hnew.count_stepped (hh.of_prefix hpre) (hc.of_prefix hpre)]
      exact hh ops op k (List.prefix_refl _) htakes
    rw [stepped_concat] at hcount ⊢
    rw [isDestroyed_step hpos, ih (hh.of_prefix hpre) (hc.of_prefix hpre), letGo_concat_iff]
    exact or_congr_right (exists_congr fun k => and_congr_right fun _ =>
      forall_congr' fun l => by rw [hcount])

/-- Nobody retains `o` again after it was let go. -/
def Final (o : ObjectId) (ops : List TallyOp) : Prop :=
  ∀ pre k, (pre ++ [.retain o k]).IsPrefix ops → ¬ LetGo o pre

theorem Final.of_prefix (hf : Final o ops) (hpre : pre.IsPrefix ops) : Final o pre :=
  fun pre' k h => hf pre' k (h.trans hpre)

/-- What was let go for good is held no more. -/
theorem Honest.held_eq_zero (hh : Honest o ops) (hfinal : Final o ops) (hgone : LetGo o ops)
    (l : RefKind) : held o l ops = 0 := by
  induction ops using List.reverseRecOn generalizing l with
  | nil => rfl
  | append_singleton ops op ih =>
    have hpre : ops.IsPrefix (ops ++ [op]) := List.prefix_append ..
    rcases (letGo_concat_iff ..).1 hgone with hbefore | ⟨-, -, hzero⟩
    · have hnone := ih (hh.of_prefix hpre) (hfinal.of_prefix hpre) hbefore
      -- whatever is given is taken, and there is nothing to take
      have hgives : op.gives? ≠ some (o, l) := by
        intro hgives
        cases op with
        | retain x k =>
          cases hgives
          exact hfinal ops l (List.prefix_refl _) hbefore
        | release x k => cases hgives
        | weaken x =>
          cases hgives
          exact absurd (hh ops _ .strong (List.prefix_refl _) rfl) (by rw [hnone]; exact nofun)
        | strengthen x =>
          cases hgives
          exact absurd (hh ops _ .weak (List.prefix_refl _) rfl) (by rw [hnone]; exact nofun)
      have hafter := hh.held_concat l
      rw [if_neg hgives, hnone] at hafter
      omega
    · exact hzero l

/-! ### Calls -/

namespace Carries

theorem eq_stepped (hc : h.Carries ops calls h') : h' = h.stepped (calls.map Carried.op) := by
  induction hc with
  | nil h => rfl
  | @cons h h' h'' op rest inner later _ _ ihinner ihlater =>
    rw [List.map_cons, List.map_append, ihlater, ihinner, ← stepped_append]
    rfl

/-- **Calls take effect one primitive step after another,** in the order in which they are
made. -/
theorem before_eq (hc : h.Carries ops calls h') {n : Nat} {c : Carried}
    (hcall : calls[n]? = some c) : c.before = h.stepped ((calls.take n).map Carried.op) := by
  induction hc generalizing n with
  | nil h => cases hcall
  | @cons h h' h'' op rest inner later hinner _ ihinner ihlater =>
    cases n with
    | zero =>
      obtain rfl : _ = c := Option.some.inj hcall
      rfl
    | succ n =>
      rw [List.getElem?_cons_succ] at hcall
      show c.before = (h.step op).2.stepped (((inner ++ later).take n).map Carried.op)
      rcases Nat.lt_or_ge n inner.length with hn | hn
      · rw [List.getElem?_append_left hn] at hcall
        rw [List.take_append_of_le_length hn.le]
        exact ihinner hcall
      · rw [List.getElem?_append_right hn] at hcall
        rw [List.take_append, List.take_of_length_le hn, List.map_append, stepped_append,
          ← hinner.eq_stepped]
        exact ihlater hcall

end Carries

/-- The heaps that calls find, and the one they leave. -/
def moments (calls : List Carried) (h' : Heap) : List Heap := calls.map Carried.before ++ [h']

theorem Carries.moments_eq (hc : h.Carries ops calls h') {n : Nat} {m : Heap}
    (hm : (moments calls h')[n]? = some m) : m = h.stepped ((calls.map Carried.op).take n) := by
  rw [moments, List.getElem?_append, List.length_map, List.getElem?_map] at hm
  rw [← List.map_take]
  split at hm
  · obtain ⟨c, hcall, rfl⟩ := Option.map_eq_some_iff.1 hm
    exact hc.before_eq hcall
  · next hn =>
    obtain rfl : m = h' := List.mem_singleton.1 (List.mem_of_getElem? hm)
    rw [List.take_of_length_le (Nat.not_lt.1 hn)]
    exact hc.eq_stepped

/-- **Tallies are exact in runs of any length.**  Let calls be made, once an object was made,
and let whoever releases or moves a reference to that object hold it, the destructors among
them, and less than `2 ^ 32` references of a kind be held at a time.  Then at every moment,
before each call however deep and at the end, each tally of the object is the number of
references of its kind that are held, and the object is destroyed if a release has left
nothing held.  If besides no call retains the object when it finds it destroyed, then it is not
destroyed at any moment at which a reference is held. -/
theorem carries_exact (h : Heap) (p : Payload) (ops : List TallyOp) (calls : List Carried)
    (h' : Heap) (hcalls : (h.make p).2.Carries ops calls h')
    (hhonest : Honest (h.make p).1 (calls.map Carried.op))
    (hcount : Countable (h.make p).1 (calls.map Carried.op)) :
    (∀ n m, (moments calls h')[n]? = some m →
      (∀ k, ((m.cell (h.make p).1).tally.count k).toNat
        = held (h.make p).1 k ((calls.map Carried.op).take n)) ∧
      ((m.cell (h.make p).1).isDestroyed = true
        ↔ LetGo (h.make p).1 ((calls.map Carried.op).take n))) ∧
    ((∀ c ∈ calls, ∀ k, c.op = .retain (h.make p).1 k →
        (c.before.cell (h.make p).1).isDestroyed = false) →
      ∀ n m, (moments calls h')[n]? = some m →
        (∃ k, 0 < held (h.make p).1 k ((calls.map Carried.op).take n)) →
        (m.cell (h.make p).1).isDestroyed = false) := by
  obtain ⟨o, ho⟩ : ∃ o, o = (h.make p).1 := ⟨_, rfl⟩
  have hnew : (h.make p).2.New o := ho ▸ h.new_make p
  rw [← ho] at hhonest hcount ⊢
  have hat : ∀ n m, (moments calls h')[n]? = some m →
      (∀ k, ((m.cell o).tally.count k).toNat = held o k ((calls.map Carried.op).take n)) ∧
      ((m.cell o).isDestroyed = true ↔ LetGo o ((calls.map Carried.op).take n)) := by
    intro n m hm
    have hpre := List.take_prefix n (calls.map Carried.op)
    rw [hcalls.moments_eq hm]
    exact ⟨hnew.count_stepped (hhonest.of_prefix hpre) (hcount.of_prefix hpre),
      hnew.isDestroyed_stepped (hhonest.of_prefix hpre) (hcount.of_prefix hpre)⟩
  refine ⟨hat, fun hfresh n m hm ⟨k, hk⟩ => ?_⟩
  have hfinal : Final o (calls.map Carried.op) := by
    rintro pre k ⟨later, hlater⟩ hgone
    rw [List.append_assoc, List.singleton_append] at hlater
    obtain ⟨past, rest, rfl, rfl, hrest⟩ := List.map_eq_append_iff.1 hlater.symm
    obtain ⟨c, future, rfl, hop, -⟩ := List.map_eq_cons_iff.1 hrest
    have hfound : (moments (past ++ c :: future) h')[past.length]? = some c.before := by
      simp [moments]
    have htake : ((past ++ c :: future).map Carried.op).take past.length
        = past.map Carried.op := by
      rw [← List.map_take, List.take_left]
    have hgone' := (hat _ _ hfound).2.2 (htake ▸ hgone)
    rw [hfresh c (by simp) k hop] at hgone'
    exact Bool.false_ne_true hgone'
  have hpre := List.take_prefix n (calls.map Carried.op)
  refine Bool.eq_false_iff.2 fun hgone => ?_
  have hletGo := (hat n m hm).2.1 hgone
  have hnone := (hhonest.of_prefix hpre).held_eq_zero (hfinal.of_prefix hpre) hletGo k
  exact absurd hk (by rw [hnone]; exact nofun)

/-- An object whose payload owns the next object that is made. -/
def owner : Heap := ⟨#[⟨⟨1, 0⟩, some ⟨.unit, [.release ⟨1⟩ .strong]⟩⟩], #[]⟩

/-- The object that is owned is retained for the owner, and weakly by somebody else, who
strengthens that reference when the owner is gone, and releases it. -/
def survival : List TallyOp :=
  [.retain ⟨1⟩ .strong, .retain ⟨1⟩ .weak, .release ⟨0⟩ .strong, .strengthen ⟨1⟩,
    .release ⟨1⟩ .strong]

/-- The steps that this comes to: the third drops the owner, and its destructor makes the
fourth. -/
def survivalSteps : List TallyOp :=
  [.retain ⟨1⟩ .strong, .retain ⟨1⟩ .weak, .release ⟨0⟩ .strong, .release ⟨1⟩ .strong,
    .strengthen ⟨1⟩, .release ⟨1⟩ .strong]

/-- The object outlives its owner with one strong reference, and goes with that. -/
theorem carries_exact_survival : ∃ calls h' m,
    (owner.make ⟨.unit, []⟩).2.Carries survival calls h' ∧ (moments calls h')[5]? = some m ∧
      (m.cell ⟨1⟩).isDestroyed = false ∧
      (∀ k, ((m.cell ⟨1⟩).tally.count k).toNat = if k = .strong then 1 else 0) ∧
      (h'.cell ⟨1⟩).isDestroyed = true := by
  have hcalls : (owner.make ⟨.unit, []⟩).2.Carries survival _ _ :=
    .cons (.nil _) (.cons (.nil _) (.cons (.cons (.nil _) (.nil _)) (.cons (.nil _)
      (.cons (.nil _) (.nil _)))))
  have hhonest : Honest ⟨1⟩ survivalSteps := by
    refine ((((((honest_nil _).concat ?_).concat ?_).concat ?_).concat ?_).concat ?_).concat ?_
    all_goals
      rintro k htakes
      cases htakes
      try decide
  have hgone : LetGo ⟨1⟩ survivalSteps :=
    ⟨survivalSteps.take 5, .strong, List.prefix_refl _, fun l => by cases l <;> rfl⟩
  obtain ⟨hat, hheld⟩ := carries_exact owner ⟨.unit, []⟩ survival _ _ hcalls hhonest
    (countable_of_length_lt (by decide))
  refine ⟨_, _, _, hcalls, rfl, hheld ?_ 5 _ rfl ⟨.strong, by decide⟩, fun k => ?_,
    (hat 6 _ rfl).2.2 hgone⟩
  · intro c hc k _
    simp only [List.nil_append, List.cons_append, List.mem_cons, List.not_mem_nil, or_false] at hc
    rcases hc with rfl | rfl | rfl | rfl | rfl | rfl
    all_goals rfl
  · refine ((hat 5 _ rfl).1 k).trans ?_
    cases k <;> rfl

/-! ### What the conditions are for -/

/-- The calls made are among those carried out. -/
theorem Carries.sublist (hc : h.Carries ops calls h') : ops.Sublist (calls.map Carried.op) := by
  induction hc with
  | nil h => exact List.Sublist.refl _
  | cons _ _ _ ihlater =>
    rw [List.map_cons, List.map_append]
    exact (ihlater.trans (List.sublist_append_right ..)).cons_cons _

/-- Without destructors, calls set nothing off. -/
theorem Carries.op_eq (hc : h.Carries ops calls h') (hz : h.dormant = 0) :
    calls.map Carried.op = ops := by
  have hlength := hc.length_add_dormant
  refine (hc.sublist.eq_of_length_le ?_).symm
  rw [List.length_map]
  omega

/-- Strong references that are retained are counted modulo `2 ^ 32`. -/
theorem cell_stepped_retain (ho : h.contains o = true) (n : Nat) :
    (h.stepped (List.replicate n (.retain o .strong))).cell o
      = { h.cell o with
          tally := { (h.cell o).tally with strong := (h.cell o).tally.strong + .ofNat n } } := by
  induction n with
  | zero =>
    have hzero : (h.cell o).tally.strong + UInt32.ofNat 0 = (h.cell o).tally.strong :=
      UInt32.add_zero _
    rw [hzero]
    rfl
  | succ n ih =>
    have hmade : (h.stepped (List.replicate n (.retain o .strong))).contains o = true := by
      rwa [contains_stepped]
    rw [List.replicate_succ', stepped_concat]
    show (Heap.retain _ o .strong).cell o = _
    rw [retain, cell_adjust hmade, if_pos rfl, ih, Tally.add, UInt32.ofNat_add, UInt32.add_assoc]
    rfl

theorem honest_replicate_retain (o : ObjectId) (k : RefKind) (n : Nat) :
    Honest o (List.replicate n (.retain o k)) := by
  intro pre op l hpre htakes
  have hop : op ∈ List.replicate n (.retain o k) := hpre.subset (by simp)
  rw [(List.mem_replicate.1 hop).2] at htakes
  cases htakes

theorem held_replicate_retain (o : ObjectId) (k : RefKind) (n : Nat) :
    held o k (List.replicate n (.retain o k)) = n := by
  rw [held, given, taken, List.countP_replicate, List.countP_replicate]
  simp [TallyOp.gives?, TallyOp.takes?]

/-- An object that nobody refers to. -/
def lone : Heap := (make {} ⟨.unit, []⟩).2

/-- After so many retains that the tally stands at one, a release destroys the object. -/
theorem carries_wrapped {n : Nat} (hn : UInt32.ofNat n = 1) : ∃ calls h',
    lone.Carries (List.replicate n (.retain ⟨0⟩ .strong) ++ [.release ⟨0⟩ .strong]) calls h' ∧
      Honest ⟨0⟩ (calls.map Carried.op) ∧ held ⟨0⟩ .strong (calls.map Carried.op) + 1 = n ∧
      (∀ k, ((h'.cell ⟨0⟩).tally.count k).toNat = 0) ∧ (h'.cell ⟨0⟩).isDestroyed = true := by
  obtain ⟨calls, hc⟩ := exists_carries
    (List.replicate n (.retain ⟨0⟩ .strong) ++ [.release ⟨0⟩ .strong]) lone
  have hheld := held_replicate_retain ⟨0⟩ .strong n
  have hpos : 0 < n := Nat.pos_of_ne_zero (by rintro rfl; cases hn)
  have hhonest : Honest ⟨0⟩ (List.replicate n (.retain ⟨0⟩ .strong) ++ [.release ⟨0⟩ .strong]) := by
    refine (honest_replicate_retain _ _ n).concat fun k htakes => ?_
    cases htakes
    rwa [hheld]
  have hmade : lone.contains ⟨0⟩ = true := rfl
  have hcell := cell_stepped_retain hmade n
  rw [hn] at hcell
  have hmade' := (lone.contains_stepped (List.replicate n (.retain ⟨0⟩ .strong)) ⟨0⟩).trans hmade
  have hone : ∀ k, TallyOp.takes? (.release ⟨0⟩ .strong) = some (⟨0⟩, k) → 0 < (((lone.stepped
      (List.replicate n (.retain ⟨0⟩ .strong))).cell ⟨0⟩).tally.count k).toNat := by
    rintro k htakes
    cases htakes
    rw [hcell]
    decide
  have hzero : ∀ k, (((lone.stepped (List.replicate n (.retain ⟨0⟩ .strong)
      ++ [.release ⟨0⟩ .strong])).cell ⟨0⟩).tally.count k).toNat = 0 := by
    intro k
    have hstep := count_step hmade' hone nofun k
    rw [hcell] at hstep
    rw [stepped_concat]
    cases k with
    | strong => exact Nat.add_right_cancel hstep
    | weak => exact hstep
  refine ⟨calls, _, hc, ?_⟩
  rw [hc.eq_stepped, hc.op_eq rfl]
  refine ⟨hhonest, ?_, hzero, ?_⟩
  · have hlast := hhonest.held_concat .strong
    rw [hheld] at hlast
    exact hlast
  · rw [stepped_concat] at hzero ⊢
    exact (isDestroyed_step hone).2 (.inr ⟨.strong, rfl, hzero⟩)

/-- **A tally that wraps, and an object that is retained too late:** though every call is honest,
an object can be destroyed, with tallies that are zero, while `2 ^ 32` references to it are held;
and so it is while one is held that was retained when it was destroyed already. -/
theorem not_exact :
    (∃ calls h', lone.Carries (List.replicate (2 ^ 32 + 1) (.retain ⟨0⟩ .strong)
        ++ [.release ⟨0⟩ .strong]) calls h' ∧
      Honest ⟨0⟩ (calls.map Carried.op) ∧ held ⟨0⟩ .strong (calls.map Carried.op) = 2 ^ 32 ∧
      ((h'.cell ⟨0⟩).tally.count .strong).toNat = 0 ∧ (h'.cell ⟨0⟩).isDestroyed = true) ∧
    ∃ calls h', lone.Carries [.retain ⟨0⟩ .strong, .release ⟨0⟩ .strong, .retain ⟨0⟩ .strong]
        calls h' ∧
      Honest ⟨0⟩ (calls.map Carried.op) ∧ held ⟨0⟩ .strong (calls.map Carried.op) = 1 ∧
      (h'.cell ⟨0⟩).isDestroyed = true := by
  constructor
  · obtain ⟨calls, h', hc, hhonest, hheld, hzero, hgone⟩ :=
      carries_wrapped (n := 2 ^ 32 + 1) (by decide)
    exact ⟨calls, h', hc, hhonest, Nat.add_right_cancel hheld, hzero .strong, hgone⟩
  · refine ⟨_, _, .cons (.nil _) (.cons (.nil _) (.cons (.nil _) (.nil _))), ?_, rfl, rfl⟩
    refine (((honest_nil _).concat ?_).concat ?_).concat ?_
    all_goals
      rintro k htakes
      cases htakes
      try decide

end Heap
end EngineHandles
