/-
# Isolates, threads and lifetimes

The world holds the isolates that somebody still refers to, and everybody who
refers to one: the host with its references, each running thread with the stack of
its enters, and each live guard.  When the last of them lets go, the isolate ends
and everything it stores is released.

A thread's enters form a list, the newest first; the first one is the thread's
current isolate.  Leaving an isolate undoes the most recent enter of it, wherever
that stands in the list, so enters and exits of different isolates need not nest.
If the isolate that moves into the gap has its first enter there, the registry
entry that says what came before it is changed.
-/
import EngineHandles.Isolate.Basic

namespace EngineHandles

/-- Splits a list at the first occurrence of a value, which is left out. -/
def splitAtFirst? {α : Type} [DecidableEq α] (x : α) : List α → Option (List α × List α)
  | [] => none
  | y :: rest =>
    if y = x then some ([], rest)
    else (splitAtFirst? x rest).map fun (above, below) => (y :: above, below)

/-- The name of a live guard. -/
structure GuardId where
  number : Nat
deriving DecidableEq, Repr

/-- What a guard does when it is dropped. -/
inductive GuardKind where
  /-- Undoes an enter. -/
  | entered
  /-- Gives up one level of the lock. -/
  | locker
  /-- Regains the lock at this depth. -/
  | unlocker (depth : UInt32)
  /-- Closes this scope. -/
  | scope (scope : ScopeId)
deriving DecidableEq, Repr

/-- A live guard.  It belongs to one thread and keeps its isolate alive. -/
structure Guard where
  id : GuardId
  thread : ThreadKey
  isolate : IsolateId
  kind : GuardKind
deriving DecidableEq, Repr

/-- The isolates, and everybody who refers to one. -/
structure World where
  shared : Shared := {}
  /-- The isolates that somebody refers to, in order of making. -/
  isolates : List Isolate := []
  nextIsolate : Nat := 1
  /-- The references that the host holds. -/
  hosts : List IsolateId := []
  /-- The enters of each running thread, the newest first. -/
  entered : List (ThreadKey × List IsolateId) := []
  guards : List Guard := []
  nextGuard : Nat := 1

namespace World

/-- The heap. -/
def heap (w : World) : Heap := w.shared.heap

/-- Changes the heap. -/
def withHeap (w : World) (h : Heap) : World := { w with shared := { w.shared with heap := h } }

/-- An isolate that somebody refers to. -/
def isolate? (w : World) (i : IsolateId) : Option Isolate :=
  w.isolates.find? fun iso => iso.id == i

/-- Writes an isolate. -/
def setIsolate (w : World) (iso : Isolate) : World :=
  { w with isolates := w.isolates.map fun j => if j.id = iso.id then iso else j }

/-- Runs an operation on an isolate, if somebody refers to it. -/
def perform? {α : Type} (w : World) (i : IsolateId) (op : Isolate.Operation α) :
    Option (α × World) :=
  match w.isolate? i with
  | none => none
  | some iso =>
    let (a, iso', shared) := op iso w.shared
    some (a, { w.setIsolate iso' with shared })

/-- The outstanding enters of a thread, the newest first. -/
def enters (w : World) (t : ThreadKey) : List IsolateId :=
  ((w.entered.find? fun e => e.1 == t).map Prod.snd).getD []

/-- Writes the outstanding enters of a thread. -/
def setEnters (w : World) (t : ThreadKey) (stack : List IsolateId) : World :=
  { w with
    entered :=
      if w.entered.any fun e => e.1 == t then
        w.entered.map fun e => if e.1 = t then (t, stack) else e
      else w.entered ++ [(t, stack)] }

/-- The isolate that a thread entered last and did not leave. -/
def current? (w : World) (t : ThreadKey) : Option IsolateId := (w.enters t).head?

/-- Whether anybody refers to an isolate. -/
def isReferenced (w : World) (i : IsolateId) : Bool :=
  w.hosts.contains i || w.guards.any (fun g => g.isolate == i) ||
    w.entered.any fun e => e.2.contains i

/-- Ends an isolate to which nobody refers any more. -/
def reap (w : World) (i : IsolateId) : World :=
  if w.isReferenced i then w
  else
    match w.isolate? i with
    | none => w
    | some iso =>
      { w with isolates := w.isolates.filter fun j => j.id != i }.withHeap
        (iso.storage.discard w.heap)

/-- Makes an isolate, to which the host then refers. -/
def newIsolate (w : World) (c : IsolateConfig) : Except ConfigError IsolateId × World :=
  let id : IsolateId := ⟨w.nextIsolate⟩
  match Isolate.ofConfig? c id with
  | .error e => (.error e, w)
  | .ok iso =>
    (.ok id, { w with
      isolates := w.isolates ++ [iso]
      nextIsolate := w.nextIsolate + 1
      hosts := w.hosts ++ [id] })

/-- Takes back one of the host's references. -/
def releaseHost (w : World) (i : IsolateId) : World :=
  { w with hosts := w.hosts.erase i }.reap i

/-- Enters an isolate and makes it current.  Answers how often the thread is in it. -/
def enter? (w : World) (t : ThreadKey) (i : IsolateId) : Option (UInt32 × World) :=
  match w.perform? i fun iso shared => iso.enter t (w.current? t) shared with
  | none => none
  | some (count, w') => some (count, w'.setEnters t (i :: w.enters t))

/-- Changes what a thread was in before an isolate. -/
def relink (w : World) (t : ThreadKey) (i : IsolateId) (previous : Option IsolateId) : World :=
  match w.isolate? i with
  | none => w
  | some iso => w.setIsolate { iso with registry := (iso.registry.relink t previous).2 }

/-- Takes the most recent enter of an isolate out of a thread's list. -/
def removeEnter (w : World) (t : ThreadKey) (i : IsolateId) : World :=
  match splitAtFirst? i (w.enters t) with
  | none => w
  | some (above, below) =>
    let w := w.setEnters t (above ++ below)
    match above.getLast? with
    | none => w
    | some j => if below.contains j then w else w.relink t j below.head?

/-- Undoes the most recent enter of an isolate. -/
def exit? (w : World) (t : ThreadKey) (i : IsolateId) : Option (Except HandleError Unit × World) :=
  match w.perform? i fun iso shared => iso.exit t shared with
  | none => none
  | some (.error e, w') => some (.error e, w')
  | some (.ok (), w') => some (.ok (), (w'.removeEnter t i).reap i)

/-- Lets go of the enters of a thread that ends, one by one in the order given.
Meanwhile only the members of its list matter, not their order. -/
def unwind (w : World) (t : ThreadKey) : List IsolateId → World
  | [] => w
  | i :: rest => ((w.setEnters t rest).reap i).unwind t rest

/-- Ends a thread.  Its registry entries and its scope stacks stay. -/
def endThread (w : World) (t : ThreadKey) : World :=
  let w := w.unwind t (w.enters t).reverse
  { w with entered := w.entered.filter fun e => e.1 != t }

end World
end EngineHandles
