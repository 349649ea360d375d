/-
# The order of a sweep

A sweep decides the slots that are near death as it begins: those that hold an object
weakly that has no strong reference (`PersistentStore.nearDeath`, in order of address).
It takes them object by object (`byObject`), the objects in the order of their first slots.
The scan of the arena puts each slot into the entry of its object as it comes to it, and
this is the same thing (`PersistentStore.doomed_eq_grouped`): a slot met later opens an
entry at the end or goes to the end of one.
-/

import EngineHandles.Proofs.Persistent.Sweep
import Mathlib.Data.List.Induction

namespace EngineHandles

/-- Pairs object by object: the objects in the order in which they first occur, the slots
of an object in the order in which they stand. -/
def byObject (ps : List (SlotAddr × ObjectId)) : List (SlotAddr × ObjectId) :=
  (ps.map Prod.snd).eraseDups.flatMap fun o => ps.filter fun p => p.2 == o

theorem eraseDups_concat {α : Type} [DecidableEq α] (l : List α) (x : α) :
    (l ++ [x]).eraseDups = l.eraseDups ++ if x ∈ l then [] else [x] := by
  rw [List.eraseDups_append]
  by_cases h : x ∈ l
  · simp [List.removeAll, h]
  · simp [List.removeAll, h, List.eraseDups_cons]

theorem nodup_eraseDups {α : Type} [DecidableEq α] (l : List α) :
    l.eraseDups.Nodup := by
  induction l using List.reverseRec with
  | nil => exact List.nodup_nil
  | append_singleton l x ih =>
    rw [eraseDups_concat]
    by_cases h : x ∈ l
    · simpa [h] using ih
    · rw [if_neg h, List.nodup_append]
      refine ⟨ih, by simp, ?_⟩
      rintro y hy z hz rfl
      rw [List.mem_singleton] at hz
      exact h (hz ▸ List.mem_eraseDups.1 hy)

/-- Grouping pairs neither adds nor loses one. -/
theorem mem_byObject {ps : List (SlotAddr × ObjectId)} {p : SlotAddr × ObjectId} :
    p ∈ byObject ps ↔ p ∈ ps := by
  simp only [byObject, List.mem_flatMap, List.mem_eraseDups, List.mem_filter, beq_iff_eq]
  constructor
  · rintro ⟨_, _, hp, _⟩
    exact hp
  · exact fun hp => ⟨p.2, List.mem_map_of_mem hp, hp, rfl⟩

namespace Doomed

/-- The slots of an object. -/
def slotsOf (ps : List (SlotAddr × ObjectId)) (o : ObjectId) : List SlotAddr :=
  (ps.filter fun p => p.2 == o).map Prod.fst

/-- One entry for each object. -/
def grouped (ps : List (SlotAddr × ObjectId)) : List Doomed :=
  (ps.map Prod.snd).eraseDups.map fun o => ⟨o, slotsOf ps o⟩

theorem slotsOf_concat (ps : List (SlotAddr × ObjectId)) (addr : SlotAddr) (o x : ObjectId) :
    slotsOf (ps ++ [(addr, o)]) x = slotsOf ps x ++ if x = o then [addr] else [] := by
  by_cases h : x = o
  · subst h
    simp [slotsOf]
  · simp [slotsOf, List.filter_append, h, Ne.symm h]

theorem slotsOf_of_not_mem {ps : List (SlotAddr × ObjectId)} {o : ObjectId}
    (h : o ∉ ps.map Prod.snd) : slotsOf ps o = [] := by
  rw [slotsOf, List.map_eq_nil_iff, List.filter_eq_nil_iff]
  rintro p hp he
  exact h (List.mem_map.2 ⟨p, hp, eq_of_beq he⟩)

/-- Adding a slot to entries for different objects. -/
theorem insert_map {os : List ObjectId} (hnd : os.Nodup) (f : ObjectId → List SlotAddr)
    (o : ObjectId) (addr : SlotAddr) :
    insert o addr (os.map fun x => ⟨x, f x⟩)
      = (os.map fun x => ⟨x, f x ++ if x = o then [addr] else []⟩)
          ++ if o ∈ os then [] else [⟨o, [addr]⟩] := by
  induction os with
  | nil => rfl
  | cons x os ih =>
    rw [List.nodup_cons] at hnd
    rw [List.map_cons, insert]
    by_cases h : x = o
    · subst h
      have hrest : (os.map fun y => (⟨y, f y ++ if y = x then [addr] else []⟩ : Doomed))
          = os.map fun y => ⟨y, f y⟩ := by
        refine List.map_congr_left fun y hy => ?_
        rw [if_neg fun he : y = x => hnd.1 (he ▸ hy), List.append_nil]
      simp [hrest]
    · simp [ih hnd.2, h, Ne.symm h]

/-- **A slot met later** goes to the end of the entry of its object, or opens one. -/
theorem insert_grouped (ps : List (SlotAddr × ObjectId)) (addr : SlotAddr) (o : ObjectId) :
    insert o addr (grouped ps) = grouped (ps ++ [(addr, o)]) := by
  rw [grouped, grouped, insert_map (nodup_eraseDups _), List.map_append, List.map_singleton,
    eraseDups_concat, List.map_append]
  simp only [slotsOf_concat, List.mem_eraseDups]
  by_cases h : o ∈ ps.map Prod.snd
  · rw [if_pos h, if_pos h]
    rfl
  · rw [if_neg h, if_neg h, List.map_singleton, slotsOf_of_not_mem h, if_pos rfl, List.nil_append]

/-- The entries for pairs, one after another, are the pairs object by object. -/
theorem pairs_grouped (ps : List (SlotAddr × ObjectId)) : pairs (grouped ps) = byObject ps := by
  rw [pairs, grouped, byObject, List.flatMap_map]
  refine List.flatMap_congr fun o _ => ?_
  rw [slotsOf, List.map_map]
  refine (List.map_congr_left fun p hp => ?_).trans (List.map_id _)
  rw [← eq_of_beq (List.mem_filter.1 hp).2]
  rfl

end Doomed

namespace PersistentStore

variable {s : PersistentStore} {h : Heap}

/-- The slots that are near death, each with its object, in order of address. -/
def nearDeath (s : PersistentStore) (h : Heap) : List (SlotAddr × ObjectId) :=
  s.slots.entries.filterMap (Doomed.pair? h)

/-- **The scan of a sweep** lists the slots near death object by object. -/
theorem doomed_eq_grouped (s : PersistentStore) (h : Heap) :
    s.doomed h = Doomed.grouped (s.nearDeath h) := by
  rw [doomed_eq_foldl, nearDeath]
  -- over the entries of the arena, of which the last is looked at last
  induction s.slots.entries using List.reverseRec with
  | nil => rfl
  | append_singleton es e ih =>
    rw [List.foldl_append, ih, List.filterMap_append, List.foldl_cons, List.foldl_nil, Doomed.visit]
    cases he : Doomed.pair? h e with
    | none => simp [he]
    | some p => simp [he, Doomed.insert_grouped]

/-- If no slot is near death, a sweep changes nothing. -/
theorem sweep_of_nearDeath_eq_nil (hnil : s.nearDeath h = []) : s.sweep h = ({}, s, h) := by
  rw [sweep, doomed_eq_grouped, hnil]
  rfl

/-- What it is to be near death. -/
theorem isNearDeath_iff {addr : SlotAddr} :
    s.isNearDeath addr h = true
      ↔ ∃ o, s.slots.get? addr = some (.holding o .weak) ∧ (h.cell o).tally.strong = 0 := by
  rw [isNearDeath, isWeak, get?]
  cases s.slots.get? addr with
  | none => simp
  | some x =>
    obtain ⟨object, kind⟩ := x
    cases object <;> cases kind <;> simp [Slot.holdsWeak, Slot.isEmpty, Slot.holding]

/-- **The slots of a sweep** are those near death. -/
theorem IsStored.mem_nearDeath (hs : s.IsStored) {addr : SlotAddr} {o : ObjectId} :
    (addr, o) ∈ s.nearDeath h ↔ s.isNearDeath addr h = true ∧ s.get? addr = some o := by
  obtain ⟨c, xs, hs⟩ := hs
  rw [isNearDeath_iff, get?, nearDeath, List.mem_filterMap]
  constructor
  · rintro ⟨⟨b, x⟩, hmem, he⟩
    obtain ⟨rfl, rfl⟩ := Doomed.pair?_eq_some he
    rw [hs.mem_entries_iff.1 hmem]
    refine ⟨⟨o, rfl, ?_⟩, rfl⟩
    by_contra hz
    simp [Doomed.pair?, Slot.holding, hz] at he
  · rintro ⟨⟨o', hget, hz⟩, ho⟩
    rw [hget] at ho
    obtain rfl := Option.some.inj ho
    exact ⟨(addr, .holding o' .weak), hs.mem_entries_iff.2 hget, if_pos hz⟩

/-- They are listed in order of address. -/
theorem IsStored.nearDeath_increasing (hs : s.IsStored) (h : Heap) :
    ((s.nearDeath h).map Prod.fst).Pairwise (· < ·) := by
  obtain ⟨c, xs, hs⟩ := hs
  exact hs.addresses_increasing.sublist (Doomed.sublist_pairs h s.slots.entries)

end PersistentStore
end EngineHandles
