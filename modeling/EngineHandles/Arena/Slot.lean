/-
# Slots

A slot holds one counted reference to an object, or nothing, together with the
tally against which it counts.  An emptied slot keeps its kind.  Releasing a slot
empties it before the object is released, so a destroyed object is never reached
through it.
-/
import EngineHandles.Heap.Basic

namespace EngineHandles

/-- A counted reference, or the place of one. -/
structure Slot where
  object : Option ObjectId
  kind : RefKind
deriving DecidableEq, Repr

namespace Slot

/-- A slot that owns a reference of kind `k`, already counted. -/
def holding (o : ObjectId) (k : RefKind) : Slot := ⟨some o, k⟩

/-- Whether the slot holds no reference. -/
def isEmpty (s : Slot) : Bool := s.object.isNone

/-- Whether the slot holds a weak reference. -/
def holdsWeak (s : Slot) : Bool := !s.isEmpty && s.kind == .weak

/-- The slot without its reference. -/
def emptied (s : Slot) : Slot := { s with object := none }

/-- Empties the slot and hands its counted reference to the caller. -/
def take (s : Slot) : Option ObjectId × Slot := (s.object, s.emptied)

/-- Empties the slot and releases its reference with the kind it was held as.
Answers whether that destroyed the object. -/
def release (s : Slot) (h : Heap) : Bool × Slot × Heap :=
  match s.object with
  | none => (false, s.emptied, h)
  | some o => let (destroyed, h') := h.release o s.kind; (destroyed, s.emptied, h')

/-- Counts the reference as weak. -/
def makeWeak (s : Slot) (h : Heap) : Slot × Heap :=
  match s.kind with
  | .weak => (s, h)
  | .strong => ({ s with kind := .weak }, match s.object with | none => h | some o => h.weaken o)

/-- Counts the reference as strong. -/
def makeStrong (s : Slot) (h : Heap) : Slot × Heap :=
  match s.kind with
  | .strong => (s, h)
  | .weak => ({ s with kind := .strong }, match s.object with | none => h | some o => h.strengthen o)

/-- Releases the references of slots, the last slot first. -/
def releaseFromEnd (slots : List Slot) (h : Heap) : Heap :=
  slots.foldr (fun s h => (s.release h).2.2) h

end Slot
end EngineHandles
