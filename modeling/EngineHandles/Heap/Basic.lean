/-
# Objects and the cascade of releases

The heap holds every object ever made: its two tallies and its payload, which an
object loses when it is destroyed.  An object is destroyed by the release that
brings both tallies to zero, and only once: a release that reaches zero again
finds no payload.

A payload comes with a destructor, a list of operations on tallies that run when
it is dropped.  They may destroy further objects, whose destructors run at once,
before the rest of the list.  `Heap.settle` runs such a list: the operations
still to do form one queue, and a destructor goes to its front.  Each operation
of a destructor runs at most once, since its payload is dropped at most once, so
the operations given and those of all live payloads bound the work.

The journal records, in order, the moments at which the embedder's own code runs:
a payload being dropped, and a weak callback being called.
-/
import EngineHandles.Ident
import EngineHandles.SlotAddr
import EngineHandles.Heap.Tally

namespace EngineHandles

/-- One change to the tallies of an object. -/
inductive TallyOp where
  | retain (object : ObjectId) (kind : RefKind)
  | release (object : ObjectId) (kind : RefKind)
  | weaken (object : ObjectId)
  | strengthen (object : ObjectId)
deriving DecidableEq, Repr

/-- The embedder's value inside an object. -/
inductive Datum where
  | word (value : UInt64)
  | text (value : String)
  | unit
  | named (label : String)
deriving DecidableEq, Repr

/-- What an object carries: a value, and what its destructor does. -/
structure Payload where
  datum : Datum
  onDrop : List TallyOp := []
deriving DecidableEq, Repr

/-- One object: its tallies, and its payload until it is destroyed. -/
structure Cell where
  tally : Tally := {}
  payload : Option Payload := none
deriving DecidableEq, Repr

namespace Cell

/-- Whether the payload has been dropped. -/
def isDestroyed (c : Cell) : Bool := c.payload.isNone

/-- Whether only weak referrers are left, so that a sweep decides. -/
def isNearDeath (c : Cell) : Bool :=
  !c.isDestroyed && c.tally.strong == 0 && c.tally.weak > 0

/-- The word that the object carries, as long as it is not destroyed. -/
def word? (c : Cell) : Option UInt64 :=
  match c.payload with
  | some { datum := .word v, .. } => some v
  | _ => none

/-- What runs when the payload is dropped. -/
def destructor (c : Cell) : List TallyOp :=
  match c.payload with
  | none => []
  | some p => p.onDrop

end Cell

/-- What a weak callback is told: its slot, the parameter it was registered with,
the object, and the state of the object as the call starts. -/
structure WeakCall where
  slot : SlotAddr
  param : UInt64
  object : ObjectId
  tally : Tally
  destroyed : Bool
deriving DecidableEq, Repr

/-- A moment at which the embedder's code runs. -/
inductive Moment where
  | payloadDropped (object : ObjectId)
  | weakCalled (call : WeakCall)
deriving DecidableEq, Repr

/-- Every object ever made, and the record of the embedder's code running. -/
structure Heap where
  cells : Array Cell := #[]
  journal : Array Moment := #[]
deriving DecidableEq, Repr

namespace Heap

/-- The state of an object. -/
def cell (h : Heap) (o : ObjectId) : Cell := h.cells[o.index]?.getD {}

/-- Whether an object was made. -/
def contains (h : Heap) (o : ObjectId) : Bool := o.index < h.cells.size

/-- Makes an object that nothing refers to. -/
def make (h : Heap) (p : Payload) : ObjectId × Heap :=
  (⟨h.cells.size⟩, { h with cells := h.cells.push { payload := some p } })

/-- Changes the tallies of an object. -/
def adjust (h : Heap) (o : ObjectId) (f : Tally → Tally) : Heap :=
  { h with cells := h.cells.modify o.index fun c => { c with tally := f c.tally } }

/-- Adds a line to the journal. -/
def record (h : Heap) (m : Moment) : Heap := { h with journal := h.journal.push m }

/-- The moments after the first `n`, in order. -/
def momentsAfter (h : Heap) (n : Nat) : List Moment := (h.journal.extract n h.journal.size).toList

/-- One referrer more, whatever the state of the object. -/
def retain (h : Heap) (o : ObjectId) (k : RefKind) : Heap := h.adjust o (·.add k)

/-- Counts a strong referrer as weak; this destroys nothing. -/
def weaken (h : Heap) (o : ObjectId) : Heap := h.adjust o Tally.weaken

/-- Counts a weak referrer as strong. -/
def strengthen (h : Heap) (o : ObjectId) : Heap := h.adjust o Tally.strengthen

/-- Drops the payload of an object: the destructor, still to be run, and the heap. -/
def destroy (h : Heap) (o : ObjectId) : List TallyOp × Heap :=
  ((h.cell o).destructor,
    { h with cells := h.cells.modify o.index fun c => { c with payload := none } }.record
      (.payloadDropped o))

/-- The first step of a release: whether it destroyed the object, the destructor
that is now due, and the heap. -/
def letGo (h : Heap) (o : ObjectId) (k : RefKind) : Bool × List TallyOp × Heap :=
  match (h.cell o).tally.takeOne? k with
  | none => (false, [], h)
  | some t =>
    let h' := h.adjust o fun _ => t
    if t.isZero && !(h.cell o).isDestroyed then
      let (due, h'') := h'.destroy o
      (true, due, h'')
    else (false, [], h')

/-- One operation without what it sets off: the destructor that is now due, and the heap. -/
def step (h : Heap) : TallyOp → List TallyOp × Heap
  | .retain o k => ([], h.retain o k)
  | .release o k => let (_, due, h') := h.letGo o k; (due, h')
  | .weaken o => ([], h.weaken o)
  | .strengthen o => ([], h.strengthen o)

/-- The operations that wait in the destructors of live payloads. -/
def dormant (h : Heap) : Nat := h.cells.foldl (fun n c => n + c.destructor.length) 0

/-- Runs a queue of operations for at most `n` steps, a destructor that comes due
going to the front. -/
def settleWithin : Nat → List TallyOp → Heap → Heap
  | 0, _, h => h
  | _ + 1, [], h => h
  | n + 1, op :: rest, h => let (due, h') := h.step op; settleWithin n (due ++ rest) h'

/-- Runs operations in order, each with everything it sets off. -/
def settle (h : Heap) : List TallyOp → Heap
  | [] => h
  | op :: rest => settleWithin ((op :: rest).length + h.dormant) (op :: rest) h

/-- One referrer less.  A tally that is zero stays so.  Answers whether this very
release destroyed the object. -/
def release (h : Heap) (o : ObjectId) (k : RefKind) : Bool × Heap :=
  let (destroyed, due, h') := h.letGo o k
  (destroyed, h'.settle due)

end Heap
end EngineHandles
