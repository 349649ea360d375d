/-
# Frontiers

A frontier tells where an arena will write next: the next free slot of the last
slab, and the end of that slab.  When the two meet, the next slot opens a new
slab.  A checkpoint remembers a frontier in order to return to it.
-/
import EngineHandles.SlotAddr

namespace EngineHandles

/-- Where an arena will write next. -/
structure Frontier where
  /-- The next free slot of the last slab. -/
  nextFree : SlotAddr
  /-- One past the last slot of the last slab. -/
  limit : SlotAddr
deriving DecidableEq, Repr

namespace Frontier

/-- The frontier of an arena without slabs. -/
def empty : Frontier := ⟨.ofParts 0 0, .ofParts 0 0⟩

/-- Whether the next slot opens a new slab. -/
def isFull (f : Frontier) : Bool := f.nextFree == f.limit

/-- The written form of a frontier: a half-open interval. -/
def text (f : Frontier) : String := "[" ++ f.nextFree.text ++ ".." ++ f.limit.text ++ ")"

end Frontier

/-- What adding a slot tells: where it went, and the frontier afterwards. -/
structure Added where
  slot : SlotAddr
  frontier : Frontier
deriving DecidableEq, Repr

/-- A frontier to return to. -/
structure Checkpoint where
  frontier : Frontier
deriving DecidableEq, Repr

/-- Where an arena has to end to be back at a checkpoint. -/
def Checkpoint.nextFree (c : Checkpoint) : SlotAddr := c.frontier.nextFree

end EngineHandles
