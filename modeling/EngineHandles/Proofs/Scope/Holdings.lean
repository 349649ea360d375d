/-
# What scope stacks hold

Whatever ids its scopes were opened under, a scope stack stores strong slots only, and
its checkpoints are frontiers at positions that descend from the innermost scope to the
outermost, down to zero (`ScopeStack.Framed`).  So the innermost frame can always be cut
away, and each operation keeps the books of the heap.

An escape holds its reference in no slot while it releases the rest of the scope; in the
books it is then simply among what others hold.
-/

import EngineHandles.Proofs.Scope.Refinement
import EngineHandles.Proofs.Arena.Holdings

namespace EngineHandles
namespace ScopeStack

/-- The references that the locals of a scope stack hold. -/
def holds (s : ScopeStack) : Account := s.locals.holds

/-- A scope stack stores strong slots, and its checkpoints are frontiers at positions that
descend to zero. -/
structure Framed (s : ScopeStack) (c : ArenaConfig) (xs : List Slot) (ps : List Nat) : Prop where
  stores : s.locals.Stores c xs
  strong : ∀ x ∈ xs, x.kind = .strong
  frontiers : s.frames.map Frame.checkpoint = ps.map fun p => ⟨c.frontierAt p⟩
  le : ∀ p ∈ ps, p ≤ xs.length
  descending : ps.Pairwise (· ≥ ·)
  bottom : ps.getLastD xs.length = 0

/-- A scope stack that has been used through its interface. -/
def IsFramed (s : ScopeStack) : Prop := ∃ c xs ps, s.Framed c xs ps

variable {strict : Prop} {met : ObjectId → Prop} {h : Heap} {A : Account} {s : ScopeStack}
  {c : ArenaConfig} {xs : List Slot} {ps : List Nat}

theorem isFramed_of_ofConfig? (hs : ofConfig? c = .ok s) : s.IsFramed ∧ s.holds = 0 := by
  have hshow := shows_of_ofConfig? hs
  have hframes : s.frames = [] := hshow.frames_eq
  refine ⟨⟨c, [], [], hshow.stores, nofun, ?_, nofun, .nil, rfl⟩, hshow.stores.holds_eq⟩
  rw [hframes]
  rfl

namespace Framed

theorem isFramed (hs : s.Framed c xs ps) : s.IsFramed := ⟨c, xs, ps, hs⟩

theorem holds_eq (hs : s.Framed c xs ps) : s.holds = Slot.holdings xs := hs.stores.holds_eq

theorem enter (hs : s.Framed c xs ps) (id : ScopeId) :
    (s.enter id).Framed c xs (xs.length :: ps) := by
  refine ⟨hs.stores, hs.strong, ?_, ?_, List.pairwise_cons.2 ⟨hs.le, hs.descending⟩, ?_⟩
  · rw [ScopeStack.enter, List.map_cons, List.map_cons, hs.frontiers, Arena.checkpoint,
      hs.stores.frontier_eq]
  · intro p hp
    rcases List.mem_cons.1 hp with rfl | hp
    · exact Nat.le_refl _
    · exact hs.le p hp
  · rw [List.getLastD_cons]
    exact hs.bottom

/-- Without a scope nothing is held. -/
theorem holds_of_isEmpty (hs : s.Framed c xs ps) (he : s.isEmpty = true) : s.holds = 0 := by
  have hps : ps = [] := by
    have := hs.frontiers
    rw [List.isEmpty_iff.1 he] at this
    exact List.map_eq_nil_iff.1 this.symm
  have := hs.bottom
  rw [hps, List.getLastD_nil] at this
  rw [hs.holds_eq, List.eq_nil_of_length_eq_zero this]
  rfl

/-- A local whose reference is taken out. -/
theorem write (hs : s.Framed c xs ps) {addr : SlotAddr} {x : Slot}
    (hx : s.locals.get? addr = some x) :
    ∃ xs', Framed { s with locals := s.locals.write addr x.emptied } c xs' ps ∧
      s.holds = Slot.holdings xs' + x.holds ∧ x.kind = .strong := by
  obtain ⟨k, R, hk, hR, hw⟩ := hs.stores.write hx
  have hkind := hs.strong x (List.mem_of_getElem? hk)
  obtain ⟨hw, hwR⟩ := hw x.emptied
  refine ⟨_, ⟨hw, fun z hz => ?_, hs.frontiers, ?_, hs.descending, ?_⟩, ?_, hkind⟩
  · rcases List.mem_or_eq_of_mem_set hz with hz | rfl
    · exact hs.strong z hz
    · exact hkind
  · rw [List.length_set]
    exact hs.le
  · rw [List.length_set]
    exact hs.bottom
  · rw [hw.holds_eq, Slot.holds_emptied, add_zero] at hwR
    rw [hwR]
    exact hR

/-- A further local of an open scope. -/
theorem concat (hs : s.Framed c xs ps) (hopen : s.frames ≠ []) {a' : Arena} {o : ObjectId}
    (ha : a'.Stores c (xs ++ [.holding o .strong])) :
    Framed { s with locals := a' } c (xs ++ [.holding o .strong]) ps := by
  refine ⟨ha, fun x hx => ?_, hs.frontiers, fun p hp => ?_, hs.descending, ?_⟩
  · rcases List.mem_append.1 hx with hx | hx
    · exact hs.strong x hx
    · obtain rfl := List.mem_singleton.1 hx
      rfl
  · have := hs.le p hp
    rw [List.length_append]
    omega
  · have hfr := hs.frontiers
    have hbottom := hs.bottom
    cases ps with
    | nil => exact absurd (List.map_eq_nil_iff.1 hfr) hopen
    | cons p ps =>
      rw [List.getLastD_cons] at hbottom ⊢
      exact hbottom

/-- **The innermost frame can always be cut away.** -/
theorem popFrame (hs : s.Framed c xs ps) (h : Heap) :
    (∃ n, (s.popFrame h).1 = .ok n) ∧ (s.popFrame h).2.1.IsFramed ∧
      (s.popFrame h).2.1.frames = s.frames.tail ∧
      ∀ (strict : Prop) (met : ObjectId → Prop) (A : Account),
        h.Books strict met (A + s.holds) →
          (s.popFrame h).2.2.Books strict met (A + (s.popFrame h).2.1.holds) := by
  have hfr := hs.frontiers
  cases hf : s.frames with
  | nil =>
    rw [ScopeStack.popFrame, hf]
    exact ⟨⟨0, rfl⟩, hs.isFramed, hf, fun _ _ _ hb => hb⟩
  | cons f below =>
    obtain ⟨id, cp⟩ := f
    rw [hf] at hfr
    cases ps with
    | nil => cases hfr
    | cons p ps =>
      rw [List.map_cons, List.map_cons] at hfr
      obtain ⟨rfl, hbelow⟩ := List.cons.inj hfr
      have hp := hs.le p List.mem_cons_self
      have hdesc := List.pairwise_cons.1 hs.descending
      obtain ⟨a', hpop, hs'⟩ := popFrame_eq hs.stores hf hp h
      rw [hpop]
      refine ⟨⟨_, rfl⟩, ⟨c, xs.take p, ps, hs', fun x hx => ?_, hbelow, fun q hq => ?_,
        hdesc.2, ?_⟩, rfl, fun strict met A hb => ?_⟩
      · exact hs.strong x (List.mem_of_mem_take hx)
      · rw [List.length_take]
        exact Nat.le_min.2 ⟨hdesc.1 q hq, hs.le q (List.mem_cons_of_mem _ hq)⟩
      · have hbottom := hs.bottom
        rw [List.getLastD_cons] at hbottom
        rw [List.length_take, Nat.min_eq_left hp]
        exact hbottom
      · show Heap.Books strict met _ (A + Arena.holds a')
        refine Slot.books_releaseFromEnd ?_
        rw [hs'.holds_eq, add_assoc, ← Slot.holdings_append, List.take_append_drop, ← hs.holds_eq]
        exact hb

end Framed

/-- What a local that can be read denotes. -/
theorem get_eq_ok_iff {id : ScopeId} {slot : SlotAddr} {o : ObjectId} :
    s.get id slot = .ok o ↔
      s.owns id slot = true ∧ ∃ x, s.locals.get? slot = some x ∧ x.object = some o := by
  rw [← Option.bind_eq_some_iff, get]
  split
  · next ho =>
    cases (s.locals.get? slot).bind Slot.object with
    | none => simp
    | some o' =>
      rw [Option.some.injEq, Except.ok.injEq]
      exact (and_iff_right ho).symm
  · next ho => simp [ho]

/-- Closing a scope keeps the books. -/
theorem books_leave (hs : s.IsFramed) (id : ScopeId) (hb : h.Books strict met (A + s.holds)) :
    (s.leave id h).2.1.IsFramed ∧
      (s.leave id h).2.2.Books strict met (A + (s.leave id h).2.1.holds) := by
  unfold leave
  split
  · exact ⟨hs, hb⟩
  · obtain ⟨c, xs, ps, hf⟩ := hs
    obtain ⟨⟨n, hn⟩, hs', -, hb'⟩ := hf.popFrame h
    have hb' := hb' strict met A hb
    generalize s.popFrame h = r at hn hs' hb'
    obtain ⟨r, s', h'⟩ := r
    obtain rfl : r = .ok n := hn
    exact ⟨hs', hb'⟩

/-- Adding a local keeps the books. -/
theorem books_add (hs : s.IsFramed) {o : ObjectId} (ho : h.Admits strict o)
    (hfits : (A + (s.add o h).2.1.holds + (s.add o h).2.2.owned).total o < 2 ^ 32)
    (hb : h.Books strict met (A + s.holds)) :
    (s.add o h).2.1.IsFramed ∧
      (s.add o h).2.2.Books strict met (A + (s.add o h).2.1.holds) := by
  obtain ⟨c, xs, ps, hf⟩ := hs
  unfold add at hfits ⊢
  cases hi : s.innermost? with
  | none => exact ⟨hf.isFramed, hb⟩
  | some scope =>
    rw [hi] at hfits
    dsimp only at hfits ⊢
    have hadd := fun hfits => Arena.books_add (A := A) hf.stores ho hfits hb
    generalize hr : s.locals.add o h = r at hadd hfits ⊢
    obtain ⟨r, a', h'⟩ := r
    cases r with
    | error e =>
      obtain ⟨hcases, hb'⟩ := hadd hfits
      rcases hcases with ⟨⟨_, hok⟩, _⟩ | ⟨_, hsame⟩
      · cases hok
      · obtain rfl : a' = s.locals := hsame
        exact ⟨hf.isFramed, hb'⟩
    | ok added =>
      obtain ⟨hcases, hb'⟩ := hadd hfits
      rcases hcases with ⟨_, hs'⟩ | ⟨⟨_, herr⟩, _⟩
      · have hopen : s.frames ≠ [] := by
          rintro hnil
          rw [innermost?, hnil] at hi
          cases hi
        exact ⟨(hf.concat hopen hs').isFramed, hb'⟩
      · cases herr

/-- An escape keeps the books. -/
theorem books_escape (hs : s.IsFramed) (id : ScopeId) (slot : SlotAddr)
    (hb : h.Books strict met (A + s.holds)) :
    (s.escape id slot h).2.1.IsFramed ∧
      (s.escape id slot h).2.2.Books strict met (A + (s.escape id slot h).2.1.holds) := by
  obtain ⟨c, xs, ps, hf⟩ := hs
  unfold escape
  split
  · exact ⟨hf.isFramed, hb⟩
  split
  · exact ⟨hf.isFramed, hb⟩
  rename_i parent hparent
  split
  · exact ⟨hf.isFramed, hb⟩
  cases hget : s.locals.get? slot with
  | none => exact ⟨hf.isFramed, hb⟩
  | some x =>
    obtain ⟨object, kind⟩ := x
    cases object with
    | none => exact ⟨hf.isFramed, hb⟩
    | some o =>
      obtain ⟨xs', hf', hhold, hkind⟩ := hf.write hget
      obtain rfl : kind = .strong := hkind
      obtain ⟨⟨n, hn⟩, hs', hframes, hb'⟩ := hf'.popFrame h
      -- the reference that moves is held by nobody in the stack
      have hb' := hb' strict met (A + .one o .strong) (by
        rw [hhold] at hb
        rw [hf'.holds_eq, add_assoc, add_comm (Account.one o .strong)]
        exact hb)
      rw [Slot.emptied] at hn hs' hframes hb'
      dsimp only [Option.map_some, Slot.take, Slot.emptied]
      generalize popFrame ⟨s.locals.write slot ⟨none, .strong⟩, s.frames⟩ h = r
        at hn hs' hframes hb' ⊢
      obtain ⟨r, s', h'⟩ := r
      obtain rfl : r = .ok n := hn
      obtain ⟨c', xs'', ps', hf''⟩ := hs'
      dsimp only at hb' ⊢
      rw [Arena.adopt]
      rcases hf''.stores.append (.holding o .strong) with
        ⟨added, a', happ, hs'', hholds⟩ | ⟨e, happ⟩
      · rw [happ]
        have hopen : s'.frames ≠ [] := by
          rintro hnil
          rw [hnil] at hframes
          rw [← List.getElem?_tail, ← hframes] at hparent
          cases hparent
        refine ⟨(hf''.concat hopen hs'').isFramed, ?_⟩
        show Heap.Books strict met h' (A + a'.holds)
        rw [hholds, Slot.holds_holding, add_comm s'.locals.holds, ← add_assoc]
        exact hb'
      · rw [happ]
        refine ⟨hf''.isFramed, Heap.Books.release (A := A + s'.locals.holds) ?_⟩
        rw [add_right_comm]
        exact hb'

/-- Discarding a stack releases what it holds. -/
theorem books_discard (hs : s.IsFramed) (hb : h.Books strict met (A + s.holds)) :
    (s.discard h).Books strict met A := by
  obtain ⟨c, xs, ps, hf⟩ := hs
  rw [hf.holds_eq] at hb
  rw [discard, Arena.clear, hf.stores.slotsFrom_zero]
  exact Slot.books_releaseFromEnd hb

end ScopeStack
end EngineHandles
