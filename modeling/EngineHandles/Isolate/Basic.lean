/-
# Isolates

An isolate is one instance of the engine's handle layer.  It stores a scope stack
for each thread that has an open scope, and the persistent handles.  Every
operation on this storage first checks that the calling thread has entered the
isolate and, once the lock was ever taken, that it owns the lock.

An operation that fails is signalled to the host with its place and its error, and
marks the isolate failed, unless the error is that the engine is dead.  A failed
isolate, or one whose host says that the engine is dead, makes no further
persistent handle; nothing else changes for it.

What isolates share is the heap, the supply of scope ids, and the host's record of
signals and root events.
-/
import EngineHandles.Scope.Stack
import EngineHandles.Persistent.Sweep
import EngineHandles.Isolate.Config
import EngineHandles.Isolate.Registry
import EngineHandles.Isolate.Lock
import EngineHandles.Isolate.Handle

namespace EngineHandles

/-- The place in the interface at which an operation failed. -/
inductive Site where
  | exit
  | openScope
  | closeScope
  | newLocal
  | getLocal
  | escape
  | newPersistent
  | dispose
  | makeWeak
  | clearWeak
  | unlock
deriving DecidableEq, Repr

/-- The name under which a place is signalled. -/
def Site.text : Site → String
  | .exit => "Isolate::exit"
  | .openScope => "HandleScope::new"
  | .closeScope => "HandleScope::close"
  | .newLocal => "Local::new"
  | .getLocal => "Local::get"
  | .escape => "HandleScope::escape"
  | .newPersistent => "Persistent::new"
  | .dispose => "Persistent::dispose"
  | .makeWeak => "Persistent::make_weak"
  | .clearWeak => "Persistent::clear_weak"
  | .unlock => "Unlocker::new"

/-- What the host is told of a failed operation. -/
structure Signal where
  isolate : IsolateId
  site : Site
  error : HandleError
deriving DecidableEq, Repr

/-- What a root observer is told: the locals of a thread came to be some, or none. -/
structure RootEvent where
  isolate : IsolateId
  thread : ThreadKey
  transition : RootTransition
  /-- The threads that have locals afterwards. -/
  rootingThreads : Nat
deriving DecidableEq, Repr

/-- What all isolates share. -/
structure Shared where
  heap : Heap := {}
  nextScope : ScopeId := .first
  signals : Array Signal := #[]
  rootEvents : Array RootEvent := #[]

/-- The signals after the first `n`, in order. -/
def Shared.signalsAfter (w : Shared) (n : Nat) : List Signal :=
  (w.signals.extract n w.signals.size).toList

/-- The root events after the first `n`, in order. -/
def Shared.rootEventsAfter (w : Shared) (n : Nat) : List RootEvent :=
  (w.rootEvents.extract n w.rootEvents.size).toList

/-- The handle storage of an isolate. -/
structure Storage where
  /-- The scope stacks of the threads that have an open scope. -/
  scopeStacks : List (ThreadKey × ScopeStack) := []
  persistents : PersistentStore
  /-- The number of threads that have a local. -/
  rootingThreads : Nat := 0

namespace Storage

/-- The scope stack of a thread. -/
def stack? (s : Storage) (t : ThreadKey) : Option ScopeStack :=
  (s.scopeStacks.find? fun e => e.1 == t).map Prod.snd

/-- Writes the scope stack of a thread; a thread that had none comes last. -/
def setStack (s : Storage) (t : ThreadKey) (stack : ScopeStack) : Storage :=
  { s with
    scopeStacks :=
      if s.scopeStacks.any fun e => e.1 == t then
        s.scopeStacks.map fun e => if e.1 = t then (t, stack) else e
      else s.scopeStacks ++ [(t, stack)] }

/-- Removes the scope stack of a thread; the last stack takes its place. -/
def removeStack (s : Storage) (t : ThreadKey) : Storage :=
  match s.scopeStacks.getLast? with
  | none => s
  | some last =>
    if last.1 = t then { s with scopeStacks := s.scopeStacks.dropLast }
    else if s.scopeStacks.any fun e => e.1 == t then
      { s with scopeStacks := s.scopeStacks.dropLast.map fun e => if e.1 = t then last else e }
    else s

/-- Counts the threads that have locals after a transition. -/
def note (s : Storage) : RootTransition → Storage
  | .unchanged => s
  | .activated => { s with rootingThreads := s.rootingThreads + 1 }
  | .idle => { s with rootingThreads := s.rootingThreads - 1 }

/-- Releases everything: the locals of each thread, then the persistent handles. -/
def discard (s : Storage) (h : Heap) : Heap :=
  s.persistents.discard (s.scopeStacks.foldl (fun h e => e.2.discard h) h)

end Storage

/-- Counters that describe an isolate. -/
structure IsolateStats where
  localSlots : Nat
  openScopes : Nat
  persistents : Nat
  weak : Nat
  rootingThreads : Nat
  enteredThreads : Nat
deriving DecidableEq, Repr

/-- One instance of the handle layer. -/
structure Isolate where
  id : IsolateId
  config : IsolateConfig
  storage : Storage
  registry : Registry IsolateId := {}
  lock : Lock := {}
  /-- Whether an operation failed. -/
  failed : Bool := false
  /-- Whether the host says that the engine is dead. -/
  engineDead : Bool := false

namespace Isolate

/-- An isolate without handles, if its configuration is valid. -/
def ofConfig? (c : IsolateConfig) (id : IsolateId) : Except ConfigError Isolate :=
  match c.fault? with
  | some e => .error e
  | none =>
    match PersistentStore.ofConfig? c.persistents with
    | .error e => .error (.persistents e)
    | .ok persistents => .ok { id, config := c, storage := { persistents } }

/-- Whether the isolate makes no further persistent handle. -/
def isDead (i : Isolate) : Bool := i.failed || i.engineDead

/-- Signals a failed operation and marks the isolate. -/
def fail (i : Isolate) (site : Site) (e : HandleError) (w : Shared) : Isolate × Shared :=
  ({ i with failed := i.failed || e != .engineDead },
    { w with signals := w.signals.push ⟨i.id, site, e⟩ })

/-- Counts a transition of a thread's locals and tells the observer. -/
def note (i : Isolate) (t : ThreadKey) (tr : RootTransition) (w : Shared) : Isolate × Shared :=
  let storage := i.storage.note tr
  let event : RootEvent := ⟨i.id, t, tr, storage.rootingThreads⟩
  ({ i with storage },
    if tr ≠ .unchanged ∧ i.config.observed then { w with rootEvents := w.rootEvents.push event }
    else w)

/-- Why a thread may not touch the storage, if it may not. -/
def accessFault? (i : Isolate) (t : ThreadKey) : Option UsageError :=
  if !i.registry.contains t then some (.notEntered i.id)
  else if i.lock.lockingMode && !i.lock.isHeldBy t then some (.notLocked i.id)
  else none

/-- Why a handle may not be used with this isolate, if it may not. -/
def ownerFault? (i : Isolate) (owner : IsolateId) : Option UsageError :=
  if owner = i.id then none else some (.wrongIsolate owner i.id)

/-- An operation on an isolate and on what it shares with the others. -/
abbrev Operation (α : Type) : Type := Isolate → Shared → α × Isolate × Shared

/-- The outcome of an operation: its answer or its error, and what it left behind. -/
abbrev Outcome (α : Type) : Type := Except HandleError α × Isolate × Shared

/-- Runs an operation on the storage for a thread that may touch it.  A failure is
signalled; a success may bring a transition of the thread's locals. -/
def run {α : Type} (i : Isolate) (t : ThreadKey) (site : Site) (w : Shared)
    (op : Storage → Shared → Except HandleError (α × RootTransition) × Storage × Shared) :
    Outcome α :=
  match i.accessFault? t with
  | some e => (.error (.usage e), i.fail site (.usage e) w)
  | none =>
    match op i.storage w with
    | (.error e, storage, w') => (.error e, { i with storage }.fail site e w')
    | (.ok (a, tr), storage, w') => (.ok a, { i with storage }.note t tr w')

/-- Records one enter of a thread that was in `previous`.  Answers how often the
thread is in the isolate. -/
def enter (i : Isolate) (t : ThreadKey) (previous : Option IsolateId) (w : Shared) :
    UInt32 × Isolate × Shared :=
  let (count, registry) := i.registry.enter t previous
  (count, { i with registry }, w)

/-- Undoes one enter of a thread. -/
def exit (i : Isolate) (t : ThreadKey) (w : Shared) : Outcome Unit :=
  match i.registry.exit t with
  | (none, _) =>
    let e : HandleError := .usage (.notEntered i.id)
    (.error e, i.fail .exit e w)
  | (some _, registry) => (.ok (), { i with registry }, w)

/-- Gives up every level of the lock, which the thread has to own.  Answers how
many there were. -/
def yieldLock (i : Isolate) (t : ThreadKey) (w : Shared) : Outcome UInt32 :=
  let (depth, lock) := i.lock.yield t
  if depth = 0 then
    let e : HandleError := .usage (.notLocked i.id)
    (.error e, { i with lock }.fail .unlock e w)
  else (.ok depth, { i with lock }, w)

/-- Opens a scope on the calling thread. -/
def openScope (i : Isolate) (t : ThreadKey) (w : Shared) : Outcome ScopeId :=
  i.run t .openScope w fun s w =>
    let stack : Except ArenaError ScopeStack :=
      match s.stack? t with
      | some stack => .ok stack
      | none => ScopeStack.ofConfig? i.config.locals
    match stack with
    | .error e => (.error e.toHandleError, s, w)
    | .ok stack =>
      (.ok (w.nextScope, .unchanged), s.setStack t (stack.enter w.nextScope),
        { w with nextScope := w.nextScope.next })

/-- Closes the innermost scope of the calling thread. -/
def closeScope (i : Isolate) (t : ThreadKey) (scope : ScopeId) (w : Shared) : Outcome Unit :=
  i.run t .closeScope w fun s w =>
    match s.stack? t with
    | none => (.error (.usage (.scopeAlreadyClosed scope)), s, w)
    | some stack =>
      match stack.leave scope w.heap with
      | (.error e, stack', heap) => (.error e, s.setStack t stack', { w with heap })
      | (.ok (_, tr), stack', heap) =>
        let s' := if stack'.isEmpty then s.removeStack t else s.setStack t stack'
        (.ok ((), tr), s', { w with heap })

/-- Why a local may not be added to a scope, if it may not. -/
def addFault? (stack : ScopeStack) : Option ScopeId → Option UsageError
  | none => none
  | some scope =>
    match stack.innermost? with
    | none => some (.scopeAlreadyClosed scope)
    | some top =>
      if top = scope then none
      else if stack.isOpen scope then some (.scopeNotInnermost scope top)
      else some (.scopeAlreadyClosed scope)

/-- Adds a local to the innermost scope, which has to be `scope` if one is named. -/
def addLocalTo (i : Isolate) (t : ThreadKey) (scope : Option ScopeId) (o : ObjectId) (w : Shared) :
    Outcome (LocalHandle × Frontier) :=
  i.run t .newLocal w fun s w =>
    match s.stack? t with
    | none => (.error (.usage .noEnclosingScope), s, w)
    | some stack =>
      match addFault? stack scope with
      | some e => (.error (.usage e), s, w)
      | none =>
        match stack.add o w.heap with
        | (.error e, stack', heap) => (.error e, s.setStack t stack', { w with heap })
        | (.ok ⟨owner, added, tr⟩, stack', heap) =>
          (.ok ((⟨i.id, owner, added.slot⟩, added.frontier), tr), s.setStack t stack',
            { w with heap })

/-- Adds a local to the innermost scope; answers the frontier as well. -/
def addLocal (i : Isolate) (t : ThreadKey) (o : ObjectId) (w : Shared) :
    Outcome (LocalHandle × Frontier) :=
  i.addLocalTo t none o w

/-- Adds a local to the innermost scope. -/
def createLocal (i : Isolate) (t : ThreadKey) (o : ObjectId) (w : Shared) : Outcome LocalHandle :=
  match i.addLocal t o w with
  | (.error e, i', w') => (.error e, i', w')
  | (.ok (l, _), i', w') => (.ok l, i', w')

/-- The object that a local points at. -/
def getLocal (i : Isolate) (t : ThreadKey) (l : LocalHandle) (w : Shared) : Outcome ObjectId :=
  i.run t .getLocal w fun s w =>
    match i.ownerFault? l.isolate with
    | some e => (.error (.usage e), s, w)
    | none =>
      match s.stack? t with
      | none => (.error (.usage (.staleLocal l.scope)), s, w)
      | some stack =>
        match stack.get l.scope l.slot with
        | .error e => (.error (.usage e), s, w)
        | .ok o => (.ok (o, .unchanged), s, w)

/-- Closes a scope and moves one of its locals into the parent scope. -/
def escape (i : Isolate) (t : ThreadKey) (scope : ScopeId) (l : LocalHandle) (w : Shared) :
    Outcome LocalHandle :=
  i.run t .escape w fun s w =>
    match i.ownerFault? l.isolate with
    | some e => (.error (.usage e), s, w)
    | none =>
      match s.stack? t with
      | none => (.error (.usage (.scopeAlreadyClosed scope)), s, w)
      | some stack =>
        match stack.escape scope l.slot w.heap with
        | (.error e, stack', heap) => (.error e, s.setStack t stack', { w with heap })
        | (.ok ⟨parent, added, tr⟩, stack', heap) =>
          (.ok (⟨i.id, parent, added.slot⟩, tr), s.setStack t stack', { w with heap })

/-- Makes a strong persistent handle.  A dead isolate refuses before it looks at
the calling thread. -/
def makePersistent (i : Isolate) (t : ThreadKey) (o : ObjectId) (w : Shared) :
    Outcome PersistentHandle :=
  if i.isDead then (.error .engineDead, i.fail .newPersistent .engineDead w)
  else
    i.run t .newPersistent w fun s w =>
      match s.persistents.make o w.heap with
      | (.error e, persistents, heap) =>
        (.error e.toHandleError, { s with persistents }, { w with heap })
      | (.ok slot, persistents, heap) =>
        (.ok (⟨i.id, slot⟩, .unchanged), { s with persistents }, { w with heap })

/-- Makes a persistent handle to the object of a local. -/
def persistLocal (i : Isolate) (t : ThreadKey) (l : LocalHandle) (w : Shared) :
    Outcome PersistentHandle :=
  match i.getLocal t l w with
  | (.error e, i', w') => (.error e, i', w')
  | (.ok o, i', w') => i'.makePersistent t o w'

/-- Runs an operation on the persistent handles for a handle of this isolate. -/
def runOwned {α : Type} (i : Isolate) (t : ThreadKey) (site : Site) (owner : IsolateId) (w : Shared)
    (op : PersistentStore → Heap → Except UsageError α × PersistentStore × Heap) : Outcome Unit :=
  i.run t site w fun s w =>
    match i.ownerFault? owner with
    | some e => (.error (.usage e), s, w)
    | none =>
      match op s.persistents w.heap with
      | (.error e, persistents, heap) => (.error (.usage e), { s with persistents }, { w with heap })
      | (.ok _, persistents, heap) => (.ok ((), .unchanged), { s with persistents }, { w with heap })

/-- Gives up a persistent handle; one that a sweep emptied is no mistake. -/
def dispose (i : Isolate) (t : ThreadKey) (p : PersistentHandle) (w : Shared) : Outcome Unit :=
  i.runOwned t .dispose p.isolate w fun s h => s.delete p.slot h

/-- Makes a persistent handle weak. -/
def makeWeak (i : Isolate) (t : ThreadKey) (p : PersistentHandle) (r : WeakRecord) (w : Shared) :
    Outcome Unit :=
  i.runOwned t .makeWeak p.isolate w fun s h => s.makeWeak p.slot r h

/-- Makes a persistent handle strong again. -/
def clearWeak (i : Isolate) (t : ThreadKey) (p : PersistentHandle) (w : Shared) : Outcome Unit :=
  i.runOwned t .clearWeak p.isolate w fun s h => s.clearWeak p.slot h

/-- Whether a handle of this isolate is weak. -/
def isWeak (i : Isolate) (p : PersistentHandle) : Bool :=
  p.isolate == i.id && i.storage.persistents.isWeak p.slot

/-- Whether a handle of this isolate is weak and its object has no strong referrer. -/
def isNearDeath (i : Isolate) (p : PersistentHandle) (h : Heap) : Bool :=
  p.isolate == i.id && i.storage.persistents.isNearDeath p.slot h

/-- The object of a handle of this isolate. -/
def getPersistent (i : Isolate) (p : PersistentHandle) : Option ObjectId :=
  if p.isolate = i.id then i.storage.persistents.get? p.slot else none

/-- Decides the objects that only weak handles reach.  Any thread may ask for it. -/
def collectWeak (i : Isolate) (w : Shared) : SweepReport × Isolate × Shared :=
  let (report, persistents, heap) := i.storage.persistents.sweep w.heap
  (report, { i with storage := { i.storage with persistents } }, { w with heap })

/-- Every strong root: the locals of each thread, then the strong persistent handles. -/
def roots (i : Isolate) : List (Option ThreadKey × SlotAddr × ObjectId) :=
  (i.storage.scopeStacks.flatMap fun (t, stack) => stack.references.map fun r => (some t, r)) ++
    i.storage.persistents.strongReferences.map fun r => (none, r)

/-- The counters of the isolate. -/
def stats (i : Isolate) : IsolateStats where
  localSlots := i.storage.scopeStacks.foldl (fun n e => n + e.2.size) 0
  openScopes := i.storage.scopeStacks.foldl (fun n e => n + e.2.depth) 0
  persistents := i.storage.persistents.live
  weak := i.storage.persistents.weakCount
  rootingThreads := i.storage.rootingThreads
  enteredThreads := i.registry.size

end Isolate
end EngineHandles
