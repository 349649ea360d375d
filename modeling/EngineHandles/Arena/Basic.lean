/-
# Arenas

An arena stores slots in order of adding, in slabs of a fixed capacity: every
slab but the last is full, and the last is not empty.  Slots are added at the end
and removed only from the end, so the address of a slot never changes while it is
stored.  `delete` cuts the arena back to an address and releases what it removes,
the last slot first.

A position at the edge of a slab has two addresses, the end of one slab and the
start of the next; `delete` reads both as the same position.
-/
import EngineHandles.Arena.Config
import EngineHandles.Arena.Frontier
import EngineHandles.Arena.Slot

namespace EngineHandles

/-- A block of slots with room for `capacity` of them. -/
structure Slab where
  capacity : UInt32
  slots : Array Slot := #[]
deriving DecidableEq, Repr

namespace Slab

/-- Whether every slot is in use. -/
def isFull (s : Slab) : Bool := s.capacity.toNat ≤ s.slots.size

/-- Adds a slot at the end. -/
def push (s : Slab) (x : Slot) : Slab := { s with slots := s.slots.push x }

/-- Keeps the first `n` slots. -/
def keep (s : Slab) (n : Nat) : Slab := { s with slots := s.slots.take n }

/-- Writes slot `k`. -/
def write (s : Slab) (k : Nat) (x : Slot) : Slab := { s with slots := s.slots.setIfInBounds k x }

end Slab

/-- Slots in order of adding, in slabs of one size. -/
structure Arena where
  config : ArenaConfig
  slabs : Array Slab := #[]
deriving DecidableEq, Repr

namespace Arena

/-- An arena without slots, if the configuration is valid. -/
def ofConfig? (c : ArenaConfig) : Except ArenaError Arena :=
  match c.fault? with
  | some f => .error (.invalidConfig f)
  | none => .ok { config := c }

/-- Slots per slab. -/
def slabSize (a : Arena) : UInt32 := a.config.slabSize

/-- Whether there is no slab. -/
def isEmpty (a : Arena) : Bool := a.slabs.isEmpty

/-- The number of slots, emptied ones included, read off the last slab. -/
def size (a : Arena) : Nat :=
  match a.slabs.back? with
  | none => 0
  | some last => a.slabSize.toNat * (a.slabs.size - 1) + last.slots.size

/-- The number of slots for which there is room without a further slab. -/
def reserved (a : Arena) : Nat := a.slabs.foldl (fun n s => n + s.capacity.toNat) 0

/-- Where the next slot will be written. -/
def frontier (a : Arena) : Frontier :=
  match a.slabs.back? with
  | none => .empty
  | some last =>
    let s := a.slabs.size - 1
    ⟨.ofCounts s last.slots.size, .ofParts (.ofNat s) a.slabSize⟩

/-- Remembers the frontier. -/
def checkpoint (a : Arena) : Checkpoint := ⟨a.frontier⟩

/-- Whether the last slab has room. -/
def hasRoom (a : Arena) : Bool := a.slabs.back?.any fun last => !last.isFull

/-- Stores a slot at the end, in a further slab if the last one is full. -/
def append (a : Arena) (x : Slot) : Except ArenaError Added × Arena :=
  if a.hasRoom then
    let slot := a.frontier.nextFree
    let a' := { a with slabs := a.slabs.modify (a.slabs.size - 1) (·.push x) }
    (.ok ⟨slot, a'.frontier⟩, a')
  else if a.config.maxSlabs.toNat ≤ a.slabs.size then
    (.error (.capacityExceeded a.slabs.size a.config.maxSlabs.toNat), a)
  else
    let slot : SlotAddr := .ofCounts a.slabs.size 0
    let a' := { a with slabs := a.slabs.push { capacity := a.slabSize, slots := #[x] } }
    (.ok ⟨slot, a'.frontier⟩, a')

/-- Stores a new strong reference, which is counted. -/
def add (a : Arena) (o : ObjectId) (h : Heap) : Except ArenaError Added × Arena × Heap :=
  match a.append (.holding o .strong) with
  | (.error e, a') => (.error e, a', h)
  | (.ok added, a') => (.ok added, a', h.retain o .strong)

/-- Stores a strong reference that the caller already counted.  If there is no
room, nobody owns the reference any more and it is released. -/
def adopt (a : Arena) (o : ObjectId) (h : Heap) : Except ArenaError Added × Arena × Heap :=
  match a.append (.holding o .strong) with
  | (.error e, a') => (.error e, a', (h.release o .strong).2)
  | (.ok added, a') => (.ok added, a', h)

/-- The end of a slab, read as the start of the next one. -/
def normalize (a : Arena) (addr : SlotAddr) : SlotAddr :=
  if addr.offset = a.slabSize then .ofParts (addr.slab + 1) 0 else addr

/-- The slots from offset `k` of slab `s` on, in order of their addresses. -/
def slotsFrom (a : Arena) (s k : Nat) : List Slot :=
  match a.slabs.toList.drop s with
  | [] => []
  | slab :: later => slab.slots.toList.drop k ++ later.flatMap fun slab => slab.slots.toList

/-- The arena without the slots from offset `k` of slab `s` on, and without a slab
that is left empty. -/
def before (a : Arena) (s k : Nat) : Arena :=
  match a.slabs[s]? with
  | none => a
  | some slab =>
    let below := a.slabs.take s
    let kept := slab.keep k
    { a with slabs := if kept.slots.isEmpty then below else below.push kept }

/-- Removes every slot, the last one first, and answers how many there were. -/
def clear (a : Arena) (h : Heap) : Nat × Arena × Heap :=
  let removed := a.slotsFrom 0 0
  (removed.length, { a with slabs := #[] }, Slot.releaseFromEnd removed h)

/-- Cuts the arena back so that it ends at an address, and answers how many slots
that removed. -/
def delete (a : Arena) (target : SlotAddr) (h : Heap) : Except ArenaError Nat × Arena × Heap :=
  if target = a.frontier.nextFree then (.ok 0, a, h)
  else
    let addr := a.normalize target
    let s := addr.slab.toNat
    let k := addr.offset.toNat
    match a.slabs[s]? with
    | none => (.error (.addressOutOfRange addr), a, h)
    | some slab =>
      if k < slab.slots.size then
        let removed := a.slotsFrom s k
        (.ok removed.length, a.before s k, Slot.releaseFromEnd removed h)
      else (.error (.addressOutOfRange addr), a, h)

/-- The slot at an address. -/
def get? (a : Arena) (addr : SlotAddr) : Option Slot :=
  match a.slabs[addr.slab.toNat]? with
  | none => none
  | some slab => slab.slots[addr.offset.toNat]?

/-- Writes the slot at an address, if there is one. -/
def write (a : Arena) (addr : SlotAddr) (x : Slot) : Arena :=
  { a with slabs := a.slabs.modify addr.slab.toNat fun slab => slab.write addr.offset.toNat x }

/-- Every slot with its address, in order. -/
def entries (a : Arena) : List (SlotAddr × Slot) :=
  a.slabs.toList.zipIdx.flatMap fun (slab, s) =>
    slab.slots.toList.zipIdx.map fun (x, k) => (.ofCounts s k, x)

/-- Visits slots from offset `k` of slab `s` on, in order. -/
def visitSlots {σ : Type} (visitor : SlotAddr → Slot → σ → Slot × σ) (s : Nat) :
    Nat → List Slot → σ → List Slot × σ
  | _, [], st => ([], st)
  | k, x :: rest, st =>
    let (x', st') := visitor (.ofCounts s k) x st
    let (rest', st'') := visitSlots visitor s (k + 1) rest st'
    (x' :: rest', st'')

/-- Visits the slots of slabs from slab `s` on, in order. -/
def visitSlabs {σ : Type} (visitor : SlotAddr → Slot → σ → Slot × σ) :
    Nat → List Slab → σ → List Slab × σ
  | _, [], st => ([], st)
  | s, slab :: rest, st =>
    let (slots', st') := visitSlots visitor s 0 slab.slots.toList st
    let (rest', st'') := visitSlabs visitor (s + 1) rest st'
    ({ slab with slots := slots'.toArray } :: rest', st'')

/-- Visits every slot in order with a visitor that may change it. -/
def visit {σ : Type} (a : Arena) (visitor : SlotAddr → Slot → σ → Slot × σ) (start : σ) :
    Arena × σ :=
  let (slabs', st) := visitSlabs visitor 0 a.slabs.toList start
  ({ a with slabs := slabs'.toArray }, st)

end Arena
end EngineHandles
