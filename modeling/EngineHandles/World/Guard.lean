/-
# Guards

A guard belongs to the thread that made it and undoes its making when it is
dropped: it leaves an isolate, gives up or regains the lock, or closes a scope.
Guards may be dropped in any order.  A guard refers to its isolate until the
undoing is over.

Taking the lock, or regaining it, may have to wait for another thread; this is
answered by nothing, and nothing changes.
-/
import EngineHandles.World.Basic

namespace EngineHandles
namespace World

/-- Registers a guard. -/
def addGuard (w : World) (t : ThreadKey) (i : IsolateId) (kind : GuardKind) : GuardId × World :=
  let id : GuardId := ⟨w.nextGuard⟩
  (id, { w with guards := w.guards ++ [⟨id, t, i, kind⟩], nextGuard := w.nextGuard + 1 })

/-- A live guard. -/
def guard? (w : World) (g : GuardId) : Option Guard := w.guards.find? fun x => x.id == g

/-- The scope that a live guard is to close. -/
def guardedScope? (w : World) (g : GuardId) : Option (Guard × ScopeId) :=
  (w.guard? g).bind fun x =>
    match x.kind with
    | .scope scope => some (x, scope)
    | _ => none

/-- The live guards of a thread. -/
def guardsOf (w : World) (t : ThreadKey) : List Guard := w.guards.filter fun g => g.thread == t

/-- Lets a guard go, whose undoing is over. -/
def removeGuard (w : World) (g : Guard) : World :=
  { w with guards := w.guards.filter fun x => x.id != g.id }.reap g.isolate

/-- Enters an isolate under a guard. -/
def enterGuarded? (w : World) (t : ThreadKey) (i : IsolateId) : Option (GuardId × World) :=
  match w.enter? t i with
  | none => none
  | some (_, w') => some (w'.addGuard t i .entered)

/-- Takes the lock of an isolate under a guard, unless that has to wait. -/
def lock? (w : World) (t : ThreadKey) (i : IsolateId) : Option (GuardId × World) :=
  match w.isolate? i with
  | none => none
  | some iso =>
    match iso.lock.acquire? t with
    | none => none
    | some lock => some ((w.setIsolate { iso with lock }).addGuard t i .locker)

/-- Yields the lock of an isolate under a guard. -/
def unlock? (w : World) (t : ThreadKey) (i : IsolateId) :
    Option (Except HandleError GuardId × World) :=
  match w.perform? i fun iso shared => iso.yieldLock t shared with
  | none => none
  | some (.error e, w') => some (.error e, w')
  | some (.ok depth, w') =>
    let (g, w'') := w'.addGuard t i (.unlocker depth)
    some (.ok g, w'')

/-- Opens a scope under a guard. -/
def openGuarded? (w : World) (t : ThreadKey) (i : IsolateId) :
    Option (Except HandleError (GuardId × ScopeId) × World) :=
  match w.perform? i fun iso shared => iso.openScope t shared with
  | none => none
  | some (.error e, w') => some (.error e, w')
  | some (.ok scope, w') =>
    let (g, w'') := w'.addGuard t i (.scope scope)
    some (.ok (g, scope), w'')

/-- What dropping a guard undoes, unless that has to wait. -/
def undo? (w : World) (g : Guard) : Option World :=
  match g.kind with
  | .entered => (w.exit? g.thread g.isolate).map Prod.snd
  | .locker =>
    (w.isolate? g.isolate).map fun iso =>
      w.setIsolate { iso with lock := iso.lock.release g.thread }
  | .unlocker depth =>
    match w.isolate? g.isolate with
    | none => none
    | some iso =>
      (iso.lock.regain? g.thread depth).map fun lock => w.setIsolate { iso with lock }
  | .scope scope =>
    (w.perform? g.isolate fun iso shared => iso.closeScope g.thread scope shared).map Prod.snd

/-- Drops a guard, unless that has to wait. -/
def dropGuard? (w : World) (g : Guard) : Option World :=
  (w.undo? g).map fun w' => w'.removeGuard g

/-- Closes the scope of a guard, which is used up. -/
def closeGuard? (w : World) (g : Guard) (scope : ScopeId) :
    Option (Except HandleError Unit × World) :=
  (w.perform? g.isolate fun iso shared => iso.closeScope g.thread scope shared).map
    fun (r, w') => (r, w'.removeGuard g)

/-- Moves a local of the scope of a guard into the parent scope.  The guard is used
up; if the escape fails, it closes its scope as if it were dropped. -/
def escapeGuard? (w : World) (g : Guard) (scope : ScopeId) (l : LocalHandle) :
    Option (Except HandleError LocalHandle × World) :=
  match w.perform? g.isolate fun iso shared => iso.escape g.thread scope l shared with
  | none => none
  | some (.ok moved, w') => some (.ok moved, w'.removeGuard g)
  | some (.error e, w') => (w'.dropGuard? g).map fun w'' => (.error e, w'')

end World
end EngineHandles
