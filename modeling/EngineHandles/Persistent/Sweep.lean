/-
# The weak sweep

A sweep decides every object that only weak persistent handles of the store still
reach.  It first lists these objects, in the order of their first slots, with
their slots in order of address.  Then it takes the objects one by one: it calls
the callback of each of its slots, where a callback that revives turns its own
slot strong at once; only then are the other slots of the object emptied and
released.  So every callback of an object runs before the object can be destroyed,
and an object survives if one of them revives it.
-/
import EngineHandles.Persistent.Store

namespace EngineHandles

/-- What a sweep did. -/
structure SweepReport where
  /-- Callbacks called. -/
  invoked : Nat := 0
  /-- Callbacks that revived their slot. -/
  revived : Nat := 0
  /-- Slots emptied. -/
  cleared : Nat := 0
  /-- Objects destroyed by emptying a slot. -/
  destroyed : Nat := 0
deriving DecidableEq, Repr

/-- An object to decide, and its slots in order of address. -/
structure Doomed where
  object : ObjectId
  slots : List SlotAddr
deriving DecidableEq, Repr

/-- Adds a slot to the entry of its object, or a new entry at the end. -/
def Doomed.insert (o : ObjectId) (addr : SlotAddr) : List Doomed → List Doomed
  | [] => [⟨o, [addr]⟩]
  | d :: rest =>
    if d.object = o then { d with slots := d.slots ++ [addr] } :: rest
    else d :: insert o addr rest

/-- The objects that a sweep of the store decides. -/
def PersistentStore.doomed (s : PersistentStore) (h : Heap) : List Doomed :=
  s.slots.entries.foldl
    (fun ds (addr, x) =>
      match x.kind, x.object with
      | .weak, some o => if (h.cell o).tally.strong = 0 then Doomed.insert o addr ds else ds
      | _, _ => ds)
    []

/-- A sweep under way. -/
structure Sweep where
  store : PersistentStore
  heap : Heap
  report : SweepReport := {}

namespace Sweep

/-- Calls the callback of a slot.  Answers whether the slot is to be emptied. -/
def ask (w : Sweep) (o : ObjectId) (addr : SlotAddr) : Bool × Sweep :=
  match w.store.record? addr with
  | none => (true, w)
  | some r =>
    let c := w.heap.cell o
    let call : WeakCall := ⟨addr, r.param, o, c.tally, c.isDestroyed⟩
    let heap := w.heap.record (.weakCalled call)
    let reply := r.callback call heap
    let heap := heap.settle reply.effects
    let report := { w.report with invoked := w.report.invoked + 1 }
    match reply.outcome with
    | .release => (true, { w with heap, report })
    | .revive =>
      let store := w.store.forget addr
      let report := { report with revived := report.revived + 1 }
      match store.slots.get? addr with
      | none => (false, { store, heap, report })
      | some x =>
        let (x', heap) := x.makeStrong heap
        (false, { store := store.write addr x', heap, report })

/-- Calls the callbacks of slots in order and keeps those that are to be emptied. -/
def askAll (w : Sweep) (o : ObjectId) : List SlotAddr → List SlotAddr × Sweep
  | [] => ([], w)
  | addr :: rest =>
    let (letGo, w') := w.ask o addr
    let (others, w'') := w'.askAll o rest
    (if letGo then addr :: others else others, w'')

/-- Empties a slot and releases its reference. -/
def clear (w : Sweep) (addr : SlotAddr) : Sweep :=
  let store := w.store.forget addr
  match store.slots.get? addr with
  | none => { w with store }
  | some x =>
    let (destroyed, x', heap) := x.release w.heap
    { store := { store.write addr x' with live := store.live - 1 }
      heap
      report := { w.report with
        cleared := w.report.cleared + 1
        destroyed := w.report.destroyed + if destroyed then 1 else 0 } }

/-- Decides one object. -/
def judge (w : Sweep) (d : Doomed) : Sweep :=
  let (letGo, w') := w.askAll d.object d.slots
  letGo.foldl clear w'

end Sweep

/-- Decides every object that only weak handles of the store reach. -/
def PersistentStore.sweep (s : PersistentStore) (h : Heap) : SweepReport × PersistentStore × Heap :=
  let w := (s.doomed h).foldl Sweep.judge { store := s, heap := h }
  (w.report, w.store, w.heap)

end EngineHandles
