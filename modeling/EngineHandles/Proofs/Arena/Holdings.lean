/-
# What slots hold

A slot that is not empty holds one reference, counted with the kind of the slot; the
holdings of an arena are those of its slots together (`Slot.holdings`).  The operations
of slots and arenas keep the books: what a slot holds before is struck out or moved, and
what it holds afterwards is entered.  `A` is throughout what others hold.
-/

import EngineHandles.Proofs.Arena.Cut
import EngineHandles.Proofs.Heap.Books

namespace EngineHandles
namespace Slot

/-- The reference that a slot holds. -/
def holds (x : Slot) : Account :=
  match x.object with
  | none => 0
  | some o => .one o x.kind

/-- The references that slots hold. -/
def holdings (xs : List Slot) : Account := (xs.map holds).sum

@[simp] theorem holds_holding (o : ObjectId) (k : RefKind) : (holding o k).holds = .one o k := rfl

@[simp] theorem holds_emptied (x : Slot) : x.emptied.holds = 0 := rfl

@[simp] theorem holdings_nil : holdings [] = 0 := rfl

theorem holdings_cons (x : Slot) (xs : List Slot) : holdings (x :: xs) = x.holds + holdings xs := by
  rw [holdings, List.map_cons, List.sum_cons, ← holdings]

theorem holdings_append (xs ys : List Slot) :
    holdings (xs ++ ys) = holdings xs + holdings ys := by
  rw [holdings, List.map_append, List.sum_append, ← holdings, ← holdings]

theorem holdings_concat (xs : List Slot) (x : Slot) :
    holdings (xs ++ [x]) = holdings xs + x.holds := by
  rw [holdings_append, holdings_cons, holdings_nil, add_zero]

/-- A slot holds something beside what the others hold. -/
theorem holdings_set {xs : List Slot} {k : Nat} (hk : k < xs.length) (y : Slot) :
    holdings (xs.set k y) = holdings (xs.eraseIdx k) + y.holds := by
  induction xs generalizing k with
  | nil => cases hk
  | cons x xs ih =>
    cases k with
    | zero =>
      rw [List.set_cons_zero, holdings_cons, List.eraseIdx_cons_zero]
      exact add_comm _ _
    | succ k =>
      rw [List.set_cons_succ, holdings_cons, ih (Nat.lt_of_succ_lt_succ hk),
        List.eraseIdx_cons_succ, holdings_cons, add_assoc]

/-- What slots hold, counted slot by slot. -/
theorem holdings_apply (xs : List Slot) (o : ObjectId) (k : RefKind) :
    holdings xs o k = xs.count (.holding o k) := by
  induction xs with
  | nil => rfl
  | cons x xs ih =>
    rw [holdings_cons, Account.add_apply, ih, List.count_cons, add_comm]
    congr 1
    obtain ⟨object, kind⟩ := x
    cases object with
    | none => rfl
    | some x =>
      refine if_congr ?_ rfl rfl
      rw [beq_iff_eq, holding, Slot.mk.injEq, Option.some.injEq, eq_comm, @eq_comm _ k]

theorem total_holds_le (x : Slot) (o : ObjectId) : x.holds.total o ≤ 1 := by
  obtain ⟨object, kind⟩ := x
  cases object with
  | none => exact Nat.zero_le 1
  | some y => exact Account.total_one_le y kind o

theorem total_holdings_le (xs : List Slot) (o : ObjectId) : (holdings xs).total o ≤ xs.length := by
  have := Account.total_sum_le (l := xs) (g := fun _ => 1) fun x _ => x.total_holds_le o
  rwa [List.map_const', List.sum_replicate_nat, Nat.mul_one] at this

/-- A slot that holds a reference contributes it. -/
theorem total_holdings_pos {xs : List Slot} {x : Slot} {o : ObjectId} (hx : x ∈ xs)
    (ho : x.object = some o) : 0 < (holdings xs).total o := by
  have hx' : Slot.holding o x.kind ∈ xs := by
    rw [holding, ← ho]
    exact hx
  have := List.count_pos_iff.2 hx'
  rw [← holdings_apply] at this
  exact Nat.lt_of_lt_of_le this (Account.le_total _ _ _)

variable {strict : Prop} {met : ObjectId → Prop} {h : Heap} {A : Account}

/-- A released slot gives up what it held. -/
theorem books_release {x : Slot} (hb : h.Books strict met (A + x.holds)) :
    (x.release h).2.2.Books strict met A := by
  obtain ⟨object, kind⟩ := x
  cases object with
  | none =>
    rw [holds, add_zero] at hb
    exact hb
  | some o => exact hb.release

theorem release_emptied (x : Slot) (h : Heap) : (x.release h).2.1 = x.emptied := by
  obtain ⟨object, kind⟩ := x
  cases object <;> rfl

@[simp] theorem object_makeWeak (x : Slot) (h : Heap) : (x.makeWeak h).1.object = x.object := by
  obtain ⟨object, kind⟩ := x
  cases kind <;> rfl

@[simp] theorem object_makeStrong (x : Slot) (h : Heap) :
    (x.makeStrong h).1.object = x.object := by
  obtain ⟨object, kind⟩ := x
  cases kind <;> rfl

theorem books_makeWeak {x : Slot} (hb : h.Books strict met (A + x.holds)) :
    (x.makeWeak h).2.Books strict met (A + (x.makeWeak h).1.holds) := by
  obtain ⟨object, kind⟩ := x
  cases kind with
  | weak => exact hb
  | strong =>
    cases object with
    | none => exact hb
    | some o => exact hb.weaken

theorem books_makeStrong {x : Slot} (hb : h.Books strict met (A + x.holds)) :
    (x.makeStrong h).2.Books strict met (A + (x.makeStrong h).1.holds) := by
  obtain ⟨object, kind⟩ := x
  cases kind with
  | strong => exact hb
  | weak =>
    cases object with
    | none => exact hb
    | some o => exact hb.strengthen

theorem books_releaseFromEnd {xs : List Slot} (hb : h.Books strict met (A + holdings xs)) :
    (releaseFromEnd xs h).Books strict met A := by
  induction xs generalizing A with
  | nil =>
    rw [holdings_nil, add_zero] at hb
    exact hb
  | cons x xs ih =>
    rw [holdings_cons, ← add_assoc] at hb
    exact books_release (ih hb)

end Slot

namespace Arena

/-- The references that the slots of an arena hold. -/
def holds (a : Arena) : Account := Slot.holdings (a.entries.map Prod.snd)

theorem total_holds_le (a : Arena) (o : ObjectId) : a.holds.total o ≤ a.entries.length := by
  have := Slot.total_holdings_le (a.entries.map Prod.snd) o
  rwa [List.length_map] at this

variable {strict : Prop} {met : ObjectId → Prop} {h : Heap} {A : Account} {a : Arena}
  {c : ArenaConfig} {xs : List Slot}

/-- An arena that refuses a reference has no slab left, and is what it was. -/
theorem add_full_or_ok (a : Arena) (o : ObjectId) (h : Heap) :
    (∃ slabs limit, a.add o h = (.error (.capacityExceeded slabs limit), a, h)) ∨
      ∃ added a', a.add o h = (.ok added, a', h.retain o .strong) := by
  unfold add append
  by_cases hroom : a.hasRoom = true
  · rw [if_pos hroom]
    exact .inr ⟨_, _, rfl⟩
  · by_cases hslabs : a.config.maxSlabs.toNat ≤ a.slabs.size
    · rw [if_neg hroom, if_pos hslabs]
      exact .inl ⟨_, _, rfl⟩
    · rw [if_neg hroom, if_neg hslabs]
      exact .inr ⟨_, _, rfl⟩

namespace Stores

theorem map_snd_entries (hs : a.Stores c xs) : a.entries.map Prod.snd = xs := by
  rw [hs.entries_eq, List.map_map]
  exact List.zipIdx_map_fst 0 xs

theorem holds_eq (hs : a.Stores c xs) : a.holds = Slot.holdings xs := by
  rw [holds, hs.map_snd_entries]

/-- A slot that holds a reference contributes it to the arena's. -/
theorem total_holds_pos (hs : a.Stores c xs) {addr : SlotAddr} {x : Slot} {o : ObjectId}
    (hx : a.get? addr = some x) (ho : x.object = some o) : 0 < a.holds.total o := by
  obtain ⟨k, -, hk⟩ := hs.exists_of_get? hx
  rw [hs.holds_eq]
  exact Slot.total_holdings_pos (List.mem_of_getElem? hk) ho

/-- Writing a slot that there is exchanges what it holds, and leaves `R`, what the others
hold. -/
theorem write (hs : a.Stores c xs) {addr : SlotAddr} {x : Slot} (hx : a.get? addr = some x) :
    ∃ k R, xs[k]? = some x ∧ a.holds = R + x.holds ∧
      ∀ y, (a.write addr y).Stores c (xs.set k y) ∧ (a.write addr y).holds = R + y.holds := by
  obtain ⟨k, rfl, hkx⟩ := hs.exists_of_get? hx
  obtain ⟨hk, rfl⟩ := List.getElem?_eq_some_iff.1 hkx
  refine ⟨k, Slot.holdings (xs.eraseIdx k), hkx, ?_, fun y => ?_⟩
  · rw [hs.holds_eq, ← Slot.holdings_set hk, List.set_getElem_self]
  · have hw := hs.write_slotAt hk y
    exact ⟨hw, by rw [hw.holds_eq, Slot.holdings_set hk]⟩

/-- A further slot, or none if the arena is full. -/
theorem append (hs : a.Stores c xs) (x : Slot) :
    (∃ added a', a.append x = (.ok added, a') ∧ a'.Stores c (xs ++ [x]) ∧
      a'.holds = a.holds + x.holds) ∨ ∃ e, a.append x = (.error e, a) := by
  rcases Nat.lt_or_ge xs.length c.capacity with hlt | hge
  · obtain ⟨a', happ, hs'⟩ := hs.append_ok x hlt
    exact .inl ⟨_, a', happ, hs', by rw [hs'.holds_eq, hs.holds_eq, Slot.holdings_concat]⟩
  · exact .inr ⟨_, hs.append_full x (Nat.le_antisymm hs.fits hge)⟩

end Stores

/-- An added reference is counted and held, unless the arena is full. -/
theorem books_add (hs : a.Stores c xs) {o : ObjectId} (ho : h.Admits strict o)
    (hfits : (A + (a.add o h).2.1.holds + (a.add o h).2.2.owned).total o < 2 ^ 32)
    (hb : h.Books strict met (A + a.holds)) :
    ((∃ added, (a.add o h).1 = .ok added) ∧ (a.add o h).2.1.Stores c (xs ++ [.holding o .strong]) ∨
      (∃ e, (a.add o h).1 = .error e) ∧ (a.add o h).2.1 = a) ∧
      (a.add o h).2.2.Books strict met (A + (a.add o h).2.1.holds) := by
  unfold add at hfits ⊢
  rcases hs.append (.holding o .strong) with ⟨added, a', happ, hs', hholds⟩ | ⟨e, happ⟩
  · rw [happ] at hfits ⊢
    dsimp only at hfits ⊢
    rw [hholds, Slot.holds_holding, ← add_assoc] at hfits ⊢
    rw [Heap.retain, Heap.owned_adjust] at hfits
    exact ⟨.inl ⟨⟨added, rfl⟩, hs'⟩, (hb.retain ho hfits).mono fun _ => .inl⟩
  · rw [happ]
    exact ⟨.inr ⟨⟨e, rfl⟩, rfl⟩, hb⟩

end Arena
end EngineHandles
