/-
# Tracked objects and call logs

A tracked batch is a number of objects whose payloads do nothing but be counted
when they are dropped.  A call log keeps entries in the order in which they came.
-/
import EngineHandles.Heap.Basic

namespace EngineHandles
namespace Workload

/-- Makes objects that carry the given values, in order. -/
def makeAll (h : Heap) : List Datum → List ObjectId × Heap
  | [] => ([], h)
  | d :: rest =>
    let (o, h') := h.make { datum := d }
    let (others, h'') := makeAll h' rest
    (o :: others, h'')

/-- Objects made together, and the heap that they live in. -/
structure TrackedBatch where
  objects : List ObjectId
  heap : Heap

namespace TrackedBatch

/-- A batch of `n` objects that nothing refers to. -/
def ofCount (n : Nat) : TrackedBatch :=
  let (objects, heap) := makeAll {} (List.replicate n .unit)
  { objects, heap }

/-- The number of objects. -/
def size (b : TrackedBatch) : Nat := b.objects.length

/-- The number of payloads dropped so far. -/
def dropped (b : TrackedBatch) : Nat :=
  b.heap.journal.countP fun m => match m with | .payloadDropped _ => true | .weakCalled _ => false

/-- The number of objects that are not destroyed. -/
def live (b : TrackedBatch) : Nat := b.objects.countP fun o => !(b.heap.cell o).isDestroyed

/-- All strong tallies together. -/
def totalStrong (b : TrackedBatch) : Nat :=
  b.objects.foldl (fun n o => n + (b.heap.cell o).tally.strong.toNat) 0

end TrackedBatch

/-- A log of entries; the one that came last is kept first. -/
structure CallLog (α : Type) where
  newestFirst : List α := []
deriving DecidableEq, Repr

namespace CallLog

variable {α : Type}

/-- The entries in the order in which they came. -/
def entries (l : CallLog α) : List α := l.newestFirst.reverse

/-- Adds an entry at the end. -/
def push (l : CallLog α) (a : α) : CallLog α := ⟨a :: l.newestFirst⟩

theorem entries_push (l : CallLog α) (a : α) : (l.push a).entries = l.entries ++ [a] := by
  simp [entries, push]

/-- The number of entries. -/
def size (l : CallLog α) : Nat := l.newestFirst.length

/-- Whether there is no entry. -/
def isEmpty (l : CallLog α) : Bool := l.newestFirst.isEmpty

end CallLog
end Workload
end EngineHandles
