/-
# Persistent handles

A persistent handle holds its reference until it is deleted, whatever scopes open
and close.  Storage only grows: an emptied slot is never used again, so a stale
handle sees an empty slot for ever.

A persistent handle can be made weak.  Its reference then counts against the weak
tally, and a record with a parameter and a callback is kept for its address until
the handle is deleted, made strong again, or decided by a sweep.  A callback may
depend on everything that it can observe, the heap and its journal, and may change
tallies before it answers.
-/
import EngineHandles.Arena.Basic

namespace EngineHandles

/-- What a weak callback decides about its own slot. -/
inductive WeakOutcome where
  /-- Let the slot go. -/
  | release
  /-- Keep the slot and count it as strong again. -/
  | revive
deriving DecidableEq, Repr

/-- What a weak callback does: changes to tallies, and then its decision. -/
structure WeakReply where
  outcome : WeakOutcome
  effects : List TallyOp := []
deriving DecidableEq, Repr

/-- A weak callback. -/
abbrev WeakCallback := WeakCall → Heap → WeakReply

/-- What is kept for a weak slot. -/
structure WeakRecord where
  param : UInt64
  callback : WeakCallback

/-- The persistent handles of an isolate: their slots, the records of the weak ones,
and the number of slots in use. -/
structure PersistentStore where
  slots : Arena
  records : List (SlotAddr × WeakRecord) := []
  live : Nat := 0

namespace PersistentStore

/-- A store without handles, if the configuration of its arena is valid. -/
def ofConfig? (c : ArenaConfig) : Except ArenaError PersistentStore :=
  match Arena.ofConfig? c with
  | .error e => .error e
  | .ok a => .ok { slots := a }

/-- Whether no slot is in use. -/
def isEmpty (s : PersistentStore) : Bool := s.live == 0

/-- The number of weak records. -/
def weakCount (s : PersistentStore) : Nat := s.records.length

/-- The record kept for an address. -/
def record? (s : PersistentStore) (addr : SlotAddr) : Option WeakRecord :=
  (s.records.find? fun r => r.1 == addr).map Prod.snd

/-- Forgets the record of an address. -/
def forget (s : PersistentStore) (addr : SlotAddr) : PersistentStore :=
  { s with records := s.records.filter fun r => r.1 != addr }

/-- Keeps a record for an address in place of an earlier one. -/
def remember (s : PersistentStore) (addr : SlotAddr) (r : WeakRecord) : PersistentStore :=
  { s with records := (s.forget addr).records ++ [(addr, r)] }

/-- Writes the slot at an address. -/
def write (s : PersistentStore) (addr : SlotAddr) (x : Slot) : PersistentStore :=
  { s with slots := s.slots.write addr x }

/-- The object at an address. -/
def get? (s : PersistentStore) (addr : SlotAddr) : Option ObjectId :=
  (s.slots.get? addr).bind Slot.object

/-- Whether an address holds a weak reference. -/
def isWeak (s : PersistentStore) (addr : SlotAddr) : Bool :=
  (s.slots.get? addr).any Slot.holdsWeak

/-- Whether an address holds a weak reference to an object without strong ones. -/
def isNearDeath (s : PersistentStore) (addr : SlotAddr) (h : Heap) : Bool :=
  s.isWeak addr && (s.get? addr).any fun o => (h.cell o).tally.strong == 0

/-- Every strong reference with its address, in order. -/
def strongReferences (s : PersistentStore) : List (SlotAddr × ObjectId) :=
  s.slots.entries.filterMap fun (addr, x) =>
    if x.kind = .strong then x.object.map fun o => (addr, o) else none

/-- Stores a new strong reference in a slot that was never used. -/
def make (s : PersistentStore) (o : ObjectId) (h : Heap) :
    Except ArenaError SlotAddr × PersistentStore × Heap :=
  match s.slots.add o h with
  | (.error e, a, h') => (.error e, { s with slots := a }, h')
  | (.ok added, a, h') => (.ok added.slot, { s with slots := a, live := s.live + 1 }, h')

/-- Releases the reference at an address and forgets its record.  An empty slot is
no mistake.  Answers whether that destroyed the object. -/
def delete (s : PersistentStore) (addr : SlotAddr) (h : Heap) :
    Except UsageError Bool × PersistentStore × Heap :=
  match s.slots.get? addr with
  | none => (.error (.invalidAddress addr), s, h)
  | some x =>
    if x.isEmpty then (.ok false, s.forget addr, h)
    else
      let (destroyed, x', h') := x.release h
      (.ok destroyed, { (s.write addr x').forget addr with live := s.live - 1 }, h')

/-- Counts the reference at an address as weak and keeps a record for it.  An empty
slot is left alone. -/
def makeWeak (s : PersistentStore) (addr : SlotAddr) (r : WeakRecord) (h : Heap) :
    Except UsageError Unit × PersistentStore × Heap :=
  match s.slots.get? addr with
  | none => (.error (.invalidAddress addr), s, h)
  | some x =>
    if x.isEmpty then (.ok (), s, h)
    else
      let (x', h') := x.makeWeak h
      (.ok (), (s.write addr x').remember addr r, h')

/-- Counts the reference at an address as strong and forgets its record. -/
def clearWeak (s : PersistentStore) (addr : SlotAddr) (h : Heap) :
    Except UsageError Unit × PersistentStore × Heap :=
  match s.slots.get? addr with
  | none => (.error (.invalidAddress addr), s, h)
  | some x =>
    let (x', h') := x.makeStrong h
    (.ok (), (s.write addr x').forget addr, h')

/-- Releases every reference, the last slot first. -/
def discard (s : PersistentStore) (h : Heap) : Heap := (s.slots.clear h).2.2

end PersistentStore
end EngineHandles
