/-
# Slots that hold an object

How many slots hold an object can be read off the storage of an isolate, and these are the
references that it holds in the books: local slots hold strong references only, persistent
ones are told apart by their kind.  The roots of an isolate are its strong slots, so a walk
over them meets an object once for each strong reference that a slot holds.
-/

import EngineHandles.Proofs.Isolate.Request

namespace EngineHandles

/-- Whether a slot holds a reference to an object. -/
def Slot.refersTo (x : Slot) (o : ObjectId) : Bool := x.object == some o

/-- What an arena holds, counted slot by slot. -/
theorem Arena.holds_apply (a : Arena) (o : ObjectId) (k : RefKind) :
    a.holds o k = a.entries.countP fun e => e.2.refersTo o && e.2.kind == k := by
  rw [holds, Slot.holdings_apply, List.count, List.countP_map]
  refine List.countP_congr fun e _ => ?_
  obtain ⟨addr, object, kind⟩ := e
  simp [Slot.holding, Slot.refersTo]

namespace ScopeStack

variable {s : ScopeStack} {c : ArenaConfig} {xs : List Slot} {ps : List Nat}

theorem Framed.kind_eq (hs : s.Framed c xs ps) {e : SlotAddr × Slot} (he : e ∈ s.locals.entries) :
    e.2.kind = .strong := by
  refine hs.strong e.2 ?_
  rw [← hs.stores.map_snd_entries]
  exact List.mem_map_of_mem he

/-- Local slots hold strong references. -/
theorem Framed.holds_strong (hs : s.Framed c xs ps) (o : ObjectId) :
    s.holds o .strong = s.locals.entries.countP fun e => e.2.refersTo o := by
  rw [holds, Arena.holds_apply]
  refine List.countP_congr fun e he => ?_
  simp [hs.kind_eq he]

theorem Framed.holds_weak (hs : s.Framed c xs ps) (o : ObjectId) : s.holds o .weak = 0 := by
  rw [holds, Arena.holds_apply, List.countP_eq_zero]
  intro e he
  simp [hs.kind_eq he]

theorem countP_references (s : ScopeStack) (o : ObjectId) :
    (s.references.countP fun r => r.2 == o) = s.locals.entries.countP fun e => e.2.refersTo o := by
  rw [references, List.countP_filterMap]
  refine List.countP_congr fun e _ => ?_
  obtain ⟨addr, object, kind⟩ := e
  cases object with
  | none => simp [Slot.refersTo]
  | some o' => simp [Slot.refersTo]

end ScopeStack

theorem PersistentStore.countP_strongReferences (s : PersistentStore) (o : ObjectId) :
    (s.strongReferences.countP fun r => r.2 == o)
      = s.slots.entries.countP fun e => e.2.refersTo o && e.2.kind == .strong := by
  rw [strongReferences, List.countP_filterMap]
  refine List.countP_congr fun e _ => ?_
  obtain ⟨addr, object, kind⟩ := e
  cases kind with
  | strong => cases object <;> simp [Slot.refersTo]
  | weak => simp

namespace Storage

/-- How many local slots of all threads hold an object. -/
def localCount (s : Storage) (o : ObjectId) : Nat :=
  (s.scopeStacks.map fun e => e.2.locals.entries.countP fun x => x.2.refersTo o).sum

/-- How many persistent slots of a kind hold an object. -/
def persistentCount (s : Storage) (k : RefKind) (o : ObjectId) : Nat :=
  s.persistents.slots.entries.countP fun x => x.2.refersTo o && x.2.kind == k

/-- The number of slots of a storage. -/
def slotCount (s : Storage) : Nat :=
  (s.scopeStacks.map fun e => e.2.locals.entries.length).sum + s.persistents.slots.entries.length

/-- No more references are held than there are slots. -/
theorem total_holds_le (s : Storage) (o : ObjectId) : s.holds.total o ≤ s.slotCount := by
  have hlocal := Account.total_sum_le (l := s.scopeStacks) (f := fun e => e.2.holds)
    (g := fun e => e.2.locals.entries.length) fun e _ => e.2.locals.total_holds_le o
  have hpers := s.persistents.slots.total_holds_le o
  rw [holds, Account.total_add]
  exact Nat.add_le_add hlocal hpers

variable {s : Storage}

theorem localHolds_apply (s : Storage) (o : ObjectId) (k : RefKind) :
    s.localHolds o k = (s.scopeStacks.map fun e => e.2.holds o k).sum := by
  rw [localHolds, Account.sum_apply, List.map_map]
  rfl

/-- The strong references that a storage holds. -/
theorem WellFormed.holds_strong (hs : s.WellFormed) (o : ObjectId) :
    s.holds o .strong = s.localCount o + s.persistentCount .strong o := by
  rw [holds, Account.add_apply, localHolds_apply, PersistentStore.holds,
    Arena.holds_apply, localCount, persistentCount]
  congr 2
  refine List.map_congr_left fun e he => ?_
  obtain ⟨c, xs, ps, hf⟩ := hs.framed e he
  exact hf.holds_strong o

/-- The weak references that a storage holds. -/
theorem WellFormed.holds_weak (hs : s.WellFormed) (o : ObjectId) :
    s.holds o .weak = s.persistentCount .weak o := by
  have hlocal : s.localHolds o .weak = 0 := by
    rw [localHolds_apply, List.sum_eq_zero_iff_forall_eq_nat]
    intro n hn
    obtain ⟨e, he, rfl⟩ := List.mem_map.1 hn
    obtain ⟨c, xs, ps, hf⟩ := hs.framed e he
    exact hf.holds_weak o
  rw [holds, Account.add_apply, hlocal, Nat.zero_add, PersistentStore.holds,
    Arena.holds_apply, persistentCount]

end Storage

/-- **How often a walk over the roots meets an object.** -/
theorem Isolate.countP_roots (i : Isolate) (o : ObjectId) :
    (i.roots.countP fun r => r.2.2 == o)
      = i.storage.localCount o + i.storage.persistentCount .strong o := by
  rw [roots, List.countP_append, List.countP_flatMap, List.countP_map, Storage.localCount,
    Storage.persistentCount, ← PersistentStore.countP_strongReferences]
  congr 2
  refine List.map_congr_left fun e _ => ?_
  rw [← ScopeStack.countP_references]
  exact List.countP_map

/-- A root holds its object in the books. -/
theorem Isolate.total_holds_pos_of_mem_roots {i : Isolate} (hs : i.storage.WellFormed)
    {r : Option ThreadKey × SlotAddr × ObjectId} (hr : r ∈ i.roots) :
    0 < i.storage.holds.total r.2.2 := by
  have hpos : 0 < i.roots.countP fun x => x.2.2 == r.2.2 :=
    List.countP_pos_iff.2 ⟨r, hr, beq_self_eq_true _⟩
  rw [i.countP_roots, ← hs.holds_strong] at hpos
  exact Nat.lt_of_lt_of_le hpos (Account.le_total _ _ _)

end EngineHandles
