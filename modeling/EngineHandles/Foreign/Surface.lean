/-
# Calls from outside

A caller outside knows isolates and objects by handles of two tables, scopes and
slots by their raw words, and reads results through pointers that may be null.  A
call answers its status, what it wrote through each pointer, and the surface that
it leaves.

An object handle counts no reference.  A handle of an isolate is a reference of the
host.  Some calls look at the pointer before the handles and some after them; a
call that makes something looks at the pointer first, so it makes nothing that
could not be named.
-/
import EngineHandles.Foreign.Status
import EngineHandles.HandleTable
import EngineHandles.World.Basic

namespace EngineHandles
namespace Foreign

/-- How an isolate is to be set up; a number that is zero stands for the default. -/
structure Config where
  localSlabSize : UInt32 := ({} : ArenaConfig).slabSize
  localMaxSlabs : UInt32 := ({} : ArenaConfig).maxSlabs
  persistentSlabSize : UInt32 := ({} : ArenaConfig).slabSize
  persistentMaxSlabs : UInt32 := ({} : ArenaConfig).maxSlabs
  /-- Whether a callback for failures is given. -/
  fatal : Bool := false
deriving DecidableEq, Repr

/-- An arena's configuration in which zeros stand for defaults. -/
def arenaConfig (slabSize maxSlabs : UInt32) : ArenaConfig where
  slabSize := if slabSize = 0 then ({} : ArenaConfig).slabSize else slabSize
  maxSlabs := if maxSlabs = 0 then ({} : ArenaConfig).maxSlabs else maxSlabs

/-- The configuration of the isolate. -/
def Config.toIsolateConfig (c : Config) : IsolateConfig where
  locals := arenaConfig c.localSlabSize c.localMaxSlabs
  persistents := arenaConfig c.persistentSlabSize c.persistentMaxSlabs

/-- What adding a local writes: the slot and the frontier. -/
structure SlotRef where
  slot : UInt64
  nextFree : UInt64
  limit : UInt64
deriving DecidableEq, Repr

namespace SlotRef

/-- The answer of a failed call. -/
def null : SlotRef := ⟨SlotAddr.null.raw, SlotAddr.null.raw, SlotAddr.null.raw⟩

/-- The answer for a new local. -/
def ofLocal (l : LocalHandle) (f : Frontier) : SlotRef :=
  ⟨l.slot.raw, f.nextFree.raw, f.limit.raw⟩

end SlotRef

/-- A weak callback from outside: told a slot and a parameter, it revives the handle
by answering anything but zero. -/
abbrev Callback := UInt64 → UInt64 → Int32

/-- The record of a weak handle whose callback is from outside; without a callback
the handle is let go. -/
def weakRecord (param : UInt64) (callback : Option Callback) : WeakRecord where
  param
  callback call _ :=
    match callback with
    | none => { outcome := .release }
    | some f => { outcome := if f call.slot.raw call.param ≠ 0 then .revive else .release }

/-- The world, and the tables of handles lent to the outside. -/
structure Surface where
  world : World := {}
  isolates : HandleTable IsolateId := {}
  objects : HandleTable ObjectId := {}

/-- What a call answers: its status, what it wrote, and the surface. -/
abbrev Reply (α : Type) : Type := Status × Option α × Surface

namespace Surface

/-- The isolate behind a handle. -/
def isolate? (c : Surface) (handle : UInt64) : Option Isolate :=
  (c.isolates.get? handle).bind c.world.isolate?

/-- Runs an operation on the isolate behind a handle. -/
def perform? {α : Type} (c : Surface) (handle : UInt64) (op : Isolate.Operation α) :
    Option (α × Surface) :=
  match c.isolates.get? handle with
  | none => none
  | some i =>
    match c.world.perform? i op with
    | none => none
    | some (a, world) => some (a, { c with world })

/-- A call that needs an isolate and writes nothing. -/
def command (c : Surface) (isolate : UInt64)
    (op : Isolate.Operation (Except HandleError Unit)) : Status × Surface :=
  match c.perform? isolate op with
  | none => (.invalidHandle, c)
  | some (r, c') => (.ofExcept r, c')

/-- A call that reads something off an isolate, and then looks at the pointer. -/
def inspect {α : Type} (c : Surface) (isolate : UInt64) (out : Bool) (read : Isolate → α) : Reply α :=
  match c.isolate? isolate with
  | none => (.invalidHandle, none, c)
  | some i => if out then (.ok, some (read i), c) else (.invalidArgument, none, c)

/-- A call that reads something off an object, and then looks at the pointer. -/
def inspectObject {α : Type} (c : Surface) (object : UInt64) (out : Bool)
    (read : Cell → Option α) : Reply α :=
  match (c.objects.get? object).bind fun o => read (c.world.heap.cell o) with
  | none => (.invalidHandle, none, c)
  | some a => if out then (.ok, some a, c) else (.invalidArgument, none, c)

/-- Writes the default configuration. -/
def configDefault (out : Bool) : Status × Option Config :=
  if out then (.ok, some {}) else (.invalidArgument, none)

/-- Makes an isolate; without a configuration the default is used. -/
def create (c : Surface) (config : Option Config) (out : Bool) : Reply UInt64 :=
  if !out then (.invalidArgument, none, c)
  else
    match c.world.newIsolate (config.getD {}).toIsolateConfig with
    | (.error e, world) => (e.status, none, { c with world })
    | (.ok i, world) =>
      let (handle, isolates) := c.isolates.insert i
      (.ok, some handle, { c with world, isolates })

/-- Gives up the handle of an isolate. -/
def destroy (c : Surface) (isolate : UInt64) : Status × Surface :=
  match c.isolates.remove isolate with
  | (none, _) => (.invalidHandle, c)
  | (some i, isolates) => (.ok, { c with isolates, world := c.world.releaseHost i })

/-- Enters an isolate on the calling thread. -/
def enter (c : Surface) (t : ThreadKey) (isolate : UInt64) : Status × Surface :=
  match (c.isolates.get? isolate).bind fun i => c.world.enter? t i with
  | none => (.invalidHandle, c)
  | some (_, world) => (.ok, { c with world })

/-- Undoes one enter of the calling thread. -/
def exit (c : Surface) (t : ThreadKey) (isolate : UInt64) : Status × Surface :=
  match (c.isolates.get? isolate).bind fun i => c.world.exit? t i with
  | none => (.invalidHandle, c)
  | some (r, world) => (.ofExcept r, { c with world })

/-- Whether any thread has entered an isolate. -/
def containsThreads (c : Surface) (isolate : UInt64) (out : Bool) : Reply Bool :=
  c.inspect isolate out fun i => !i.registry.isEmpty

/-- The counters of an isolate. -/
def stats (c : Surface) (isolate : UInt64) (out : Bool) : Reply IsolateStats :=
  c.inspect isolate out Isolate.stats

/-- Sweeps the weak handles of an isolate.  The pointer may be null. -/
def collect (c : Surface) (isolate : UInt64) (out : Bool) : Reply SweepReport :=
  match c.perform? isolate fun i w => i.collectWeak w with
  | none => (.invalidHandle, none, c)
  | some (report, c') => (.ok, if out then some report else none, c')

/-- Makes an object that carries a word. -/
def objectNew (c : Surface) (payload : UInt64) (out : Bool) : Reply UInt64 :=
  if !out then (.invalidArgument, none, c)
  else
    let (o, heap) := c.world.heap.make { datum := .word payload }
    let (handle, objects) := c.objects.insert o
    (.ok, some handle, { c with world := c.world.withHeap heap, objects })

/-- Gives up an object handle; no tally changes. -/
def objectRelease (c : Surface) (object : UInt64) : Status × Surface :=
  match c.objects.remove object with
  | (none, _) => (.invalidHandle, c)
  | (some _, objects) => (.ok, { c with objects })

/-- The word that an object carries, as long as it is not destroyed. -/
def objectPayload (c : Surface) (object : UInt64) (out : Bool) : Reply UInt64 :=
  c.inspectObject object out Cell.word?

/-- The tallies of an object.  Either pointer may be null. -/
def objectRefcount (c : Surface) (object : UInt64) (strongOut weakOut : Bool) :
    Status × Option UInt32 × Option UInt32 × Surface :=
  match c.objects.get? object with
  | none => (.invalidHandle, none, none, c)
  | some o =>
    let t := (c.world.heap.cell o).tally
    (.ok, if strongOut then some t.strong else none, if weakOut then some t.weak else none, c)

/-- Whether an object is destroyed. -/
def objectIsDestroyed (c : Surface) (object : UInt64) (out : Bool) : Reply Bool :=
  c.inspectObject object out fun cell => some cell.isDestroyed

/-- Makes a persistent handle.  On failure the null slot is written. -/
def persistentNew (c : Surface) (t : ThreadKey) (isolate object : UInt64) (out : Bool) :
    Reply UInt64 :=
  if !out then (.invalidArgument, none, c)
  else
    match c.objects.get? object with
    | none => (.invalidHandle, none, c)
    | some o =>
      match c.perform? isolate fun i w => i.makePersistent t o w with
      | none => (.invalidHandle, none, c)
      | some (.error e, c') => (e.status, some SlotAddr.null.raw, c')
      | some (.ok p, c') => (.ok, some p.slot.raw, c')

/-- Gives up a persistent handle. -/
def persistentDispose (c : Surface) (t : ThreadKey) (isolate slot : UInt64) : Status × Surface :=
  c.command isolate fun i w => i.dispose t ⟨i.id, ⟨slot⟩⟩ w

/-- Makes a persistent handle weak. -/
def persistentMakeWeak (c : Surface) (t : ThreadKey) (isolate slot param : UInt64)
    (callback : Option Callback) : Status × Surface :=
  c.command isolate fun i w => i.makeWeak t ⟨i.id, ⟨slot⟩⟩ (weakRecord param callback) w

/-- Makes a persistent handle strong again. -/
def persistentClearWeak (c : Surface) (t : ThreadKey) (isolate slot : UInt64) : Status × Surface :=
  c.command isolate fun i w => i.clearWeak t ⟨i.id, ⟨slot⟩⟩ w

/-- Whether a persistent handle is weak. -/
def persistentIsWeak (c : Surface) (isolate slot : UInt64) (out : Bool) : Reply Bool :=
  c.inspect isolate out fun i => i.isWeak ⟨i.id, ⟨slot⟩⟩

/-- Whether a persistent handle is weak and its object has no strong referrer. -/
def persistentIsNearDeath (c : Surface) (isolate slot : UInt64) (out : Bool) : Reply Bool :=
  c.inspect isolate out fun i => i.isNearDeath ⟨i.id, ⟨slot⟩⟩ c.world.heap

/-- Opens a scope on the calling thread. -/
def scopeOpen (c : Surface) (t : ThreadKey) (isolate : UInt64) (out : Bool) : Reply UInt64 :=
  if !out then (.invalidArgument, none, c)
  else
    match c.perform? isolate fun i w => i.openScope t w with
    | none => (.invalidHandle, none, c)
    | some (.error e, c') => (e.status, none, c')
    | some (.ok scope, c') => (.ok, some scope.raw, c')

/-- Closes the innermost scope of the calling thread. -/
def scopeClose (c : Surface) (t : ThreadKey) (isolate scope : UInt64) : Status × Surface :=
  c.command isolate fun i w => i.closeScope t ⟨scope⟩ w

/-- Closes a scope and moves one of its locals into the parent scope. -/
def scopeEscape (c : Surface) (t : ThreadKey) (isolate scope slot : UInt64) (out : Bool) :
    Reply UInt64 :=
  if !out then (.invalidArgument, none, c)
  else
    match c.perform? isolate fun i w => i.escape t ⟨scope⟩ ⟨i.id, ⟨scope⟩, ⟨slot⟩⟩ w with
    | none => (.invalidHandle, none, c)
    | some (.error e, c') => (e.status, none, c')
    | some (.ok moved, c') => (.ok, some moved.slot.raw, c')

/-- Adds a local to the innermost scope of the calling thread. -/
def localNew (c : Surface) (t : ThreadKey) (isolate object : UInt64) : SlotRef × Surface :=
  match c.objects.get? object with
  | none => (.null, c)
  | some o =>
    match c.perform? isolate fun i w => i.addLocal t o w with
    | none => (.null, c)
    | some (.error _, c') => (.null, c')
    | some (.ok (l, f), c') => (.ofLocal l f, c')

/-- Lends out a new handle for the object that a local points at. -/
def localGet (c : Surface) (t : ThreadKey) (isolate scope slot : UInt64) (out : Bool) :
    Reply UInt64 :=
  if !out then (.invalidArgument, none, c)
  else
    match c.perform? isolate fun i w => i.getLocal t ⟨i.id, ⟨scope⟩, ⟨slot⟩⟩ w with
    | none => (.invalidHandle, none, c)
    | some (.error e, c') => (e.status, none, c')
    | some (.ok o, c') =>
      let (handle, objects) := c'.objects.insert o
      (.ok, some handle, { c' with objects })

/-- Ends a thread. -/
def endThread (c : Surface) (t : ThreadKey) : Surface :=
  { c with world := c.world.endThread t }

end Surface
end Foreign
end EngineHandles
