/-
# What persistent handles hold

The operations on persistent handles keep the books of the heap: making a handle enters a
reference, deleting one strikes it out, and a handle that changes its kind moves it.
-/

import EngineHandles.Persistent.Store
import EngineHandles.Proofs.Arena.Holdings

namespace EngineHandles
namespace PersistentStore

/-- The references that the handles of a store hold. -/
def holds (s : PersistentStore) : Account := s.slots.holds

/-- Whether the slots of a store are those of an arena that is used through its interface. -/
def IsStored (s : PersistentStore) : Prop := ∃ c xs, s.slots.Stores c xs

variable {strict : Prop} {met : ObjectId → Prop} {h : Heap} {A : Account} {s : PersistentStore}
  {addr : SlotAddr}

theorem isStored_of_ofConfig? {c : ArenaConfig} (hs : ofConfig? c = .ok s) :
    s.IsStored ∧ s.holds = 0 := by
  unfold ofConfig? at hs
  split at hs
  · cases hs
  · next ha =>
    cases hs
    have := Arena.stores_of_ofConfig? ha
    exact ⟨⟨c, [], this⟩, this.holds_eq⟩

/-- Writing a slot that there is exchanges what it holds. -/
theorem IsStored.write (hs : s.IsStored) {x : Slot} (hx : s.slots.get? addr = some x) :
    ∃ R, s.holds = R + x.holds ∧
      ∀ y, (s.write addr y).IsStored ∧ (s.write addr y).holds = R + y.holds := by
  obtain ⟨c, xs, hs⟩ := hs
  obtain ⟨k, R, -, hR, hw⟩ := hs.write hx
  exact ⟨R, hR, fun y => ⟨⟨c, _, (hw y).1⟩, (hw y).2⟩⟩

/-- A handle that holds a reference contributes it to the store's. -/
theorem IsStored.total_holds_pos (hs : s.IsStored) {x : Slot} {o : ObjectId}
    (hx : s.slots.get? addr = some x) (ho : x.object = some o) : 0 < s.holds.total o := by
  obtain ⟨c, xs, hs⟩ := hs
  exact hs.total_holds_pos hx ho

/-- A handle that cannot be made changes nothing. -/
theorem make_full_or_ok (s : PersistentStore) (o : ObjectId) (h : Heap) :
    (∃ slabs limit, s.make o h = (.error (.capacityExceeded slabs limit), s, h)) ∨
      ∃ slot s', s.make o h = (.ok slot, s', h.retain o .strong) := by
  unfold make
  rcases s.slots.add_full_or_ok o h with ⟨slabs, limit, he⟩ | ⟨added, a', he⟩ <;> rw [he]
  · exact .inl ⟨slabs, limit, rfl⟩
  · exact .inr ⟨_, _, rfl⟩

theorem books_make (hs : s.IsStored) {o : ObjectId} (ho : h.Admits strict o)
    (hfits : (A + (s.make o h).2.1.holds + (s.make o h).2.2.owned).total o < 2 ^ 32)
    (hb : h.Books strict met (A + s.holds)) :
    (s.make o h).2.1.IsStored ∧
      (s.make o h).2.2.Books strict met (A + (s.make o h).2.1.holds) := by
  obtain ⟨c, xs, hs⟩ := hs
  unfold make at hfits ⊢
  have hadd := fun hfits => Arena.books_add (A := A) hs ho hfits hb
  generalize s.slots.add o h = r at hadd hfits ⊢
  obtain ⟨r, a', h'⟩ := r
  cases r with
  | error e =>
    obtain ⟨hcases, hb'⟩ := hadd hfits
    rcases hcases with ⟨⟨_, hok⟩, _⟩ | ⟨_, hsame⟩
    · cases hok
    · obtain rfl : a' = s.slots := hsame
      exact ⟨⟨c, xs, hs⟩, hb'⟩
  | ok added =>
    obtain ⟨hcases, hb'⟩ := hadd hfits
    rcases hcases with ⟨_, hs'⟩ | ⟨⟨_, herr⟩, _⟩
    · exact ⟨⟨c, _, hs'⟩, hb'⟩
    · cases herr

theorem books_delete (hs : s.IsStored) (addr : SlotAddr) (hb : h.Books strict met (A + s.holds)) :
    (s.delete addr h).2.1.IsStored ∧
      (s.delete addr h).2.2.Books strict met (A + (s.delete addr h).2.1.holds) := by
  unfold delete
  cases hx : s.slots.get? addr with
  | none => exact ⟨hs, hb⟩
  | some x =>
    dsimp only
    split
    · exact ⟨hs, hb⟩
    · obtain ⟨R, hR, hw⟩ := hs.write hx
      obtain ⟨hs', hw⟩ := hw (x.release h).2.1
      rw [hR, ← add_assoc] at hb
      refine ⟨hs', ?_⟩
      show Heap.Books strict met _ (A + (s.write addr (x.release h).2.1).holds)
      rw [hw, Slot.release_emptied, Slot.holds_emptied, add_zero]
      exact Slot.books_release hb

theorem books_makeWeak (hs : s.IsStored) (addr : SlotAddr) (r : WeakRecord)
    (hb : h.Books strict met (A + s.holds)) :
    (s.makeWeak addr r h).2.1.IsStored ∧
      (s.makeWeak addr r h).2.2.Books strict met (A + (s.makeWeak addr r h).2.1.holds) := by
  unfold makeWeak
  cases hx : s.slots.get? addr with
  | none => exact ⟨hs, hb⟩
  | some x =>
    dsimp only
    split
    · exact ⟨hs, hb⟩
    · obtain ⟨R, hR, hw⟩ := hs.write hx
      obtain ⟨hs', hw⟩ := hw (x.makeWeak h).1
      rw [hR, ← add_assoc] at hb
      refine ⟨hs', ?_⟩
      show Heap.Books strict met _ (A + (s.write addr (x.makeWeak h).1).holds)
      rw [hw, ← add_assoc]
      exact Slot.books_makeWeak hb

theorem books_clearWeak (hs : s.IsStored) (addr : SlotAddr)
    (hb : h.Books strict met (A + s.holds)) :
    (s.clearWeak addr h).2.1.IsStored ∧
      (s.clearWeak addr h).2.2.Books strict met (A + (s.clearWeak addr h).2.1.holds) := by
  unfold clearWeak
  cases hx : s.slots.get? addr with
  | none => exact ⟨hs, hb⟩
  | some x =>
    obtain ⟨R, hR, hw⟩ := hs.write hx
    obtain ⟨hs', hw⟩ := hw (x.makeStrong h).1
    rw [hR, ← add_assoc] at hb
    refine ⟨hs', ?_⟩
    show Heap.Books strict met _ (A + (s.write addr (x.makeStrong h).1).holds)
    rw [hw, ← add_assoc]
    exact Slot.books_makeStrong hb

/-- Discarding a store releases what its handles hold. -/
theorem books_discard (hs : s.IsStored) (hb : h.Books strict met (A + s.holds)) :
    (s.discard h).Books strict met A := by
  obtain ⟨c, xs, hs⟩ := hs
  rw [holds, hs.holds_eq] at hb
  rw [discard, Arena.clear, hs.slotsFrom_zero]
  exact Slot.books_releaseFromEnd hb

end PersistentStore
end EngineHandles
