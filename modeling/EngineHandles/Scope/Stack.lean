/-
# Handle scopes

A thread's handle scopes form a stack over one arena of local slots.  Opening a
scope remembers the arena's frontier; closing it cuts the arena back to there, so
each local made inside is released exactly once.  The slots of a scope are those
between its own frontier and that of the scope opened inside it.

An escape closes the innermost scope and moves one of its references into the
parent: the slot is emptied, the scope is cut away, and the reference is stored
again without being counted again.
-/
import EngineHandles.Arena.Basic

namespace EngineHandles

/-- How an operation changed whether a stack holds any local slot. -/
inductive RootTransition where
  | unchanged
  | activated
  | idle
deriving DecidableEq, Repr

namespace RootTransition

/-- The transition between two numbers of slots. -/
def between (earlier later : Nat) : RootTransition :=
  if earlier = 0 ∧ later ≠ 0 then .activated
  else if earlier ≠ 0 ∧ later = 0 then .idle
  else .unchanged

/-- The written form of a transition. -/
def text : RootTransition → String
  | .unchanged => "unchanged"
  | .activated => "activated"
  | .idle => "idle"

end RootTransition

/-- An open scope: its id, and the frontier to return to when it closes. -/
structure Frame where
  id : ScopeId
  checkpoint : Checkpoint
deriving DecidableEq, Repr

/-- The scopes of one thread, innermost first, and the slots of their locals. -/
structure ScopeStack where
  locals : Arena
  frames : List Frame := []
deriving DecidableEq, Repr

/-- What adding a local tells. -/
structure LocalAdded where
  scope : ScopeId
  added : Added
  transition : RootTransition
deriving DecidableEq, Repr

/-- What an escape tells: the scope that now owns the reference, and its new slot. -/
structure Escaped where
  parent : ScopeId
  added : Added
  transition : RootTransition
deriving DecidableEq, Repr

namespace ScopeStack

/-- A stack without scopes, if the configuration of its arena is valid. -/
def ofConfig? (c : ArenaConfig) : Except ArenaError ScopeStack :=
  match Arena.ofConfig? c with
  | .error e => .error e
  | .ok a => .ok { locals := a }

/-- The number of open scopes. -/
def depth (s : ScopeStack) : Nat := s.frames.length

/-- Whether no scope is open. -/
def isEmpty (s : ScopeStack) : Bool := s.frames.isEmpty

/-- The number of local slots. -/
def size (s : ScopeStack) : Nat := s.locals.size

/-- The scope opened last among the open ones. -/
def innermost? (s : ScopeStack) : Option ScopeId := s.frames.head?.map Frame.id

/-- Whether a scope is open on this stack. -/
def isOpen (s : ScopeStack) (id : ScopeId) : Bool := s.frames.any fun f => f.id == id

/-- Every local reference with its address, in order. -/
def references (s : ScopeStack) : List (SlotAddr × ObjectId) :=
  s.locals.entries.filterMap fun (addr, x) => x.object.map fun o => (addr, o)

/-- Opens a scope under a new id. -/
def enter (s : ScopeStack) (id : ScopeId) : ScopeStack :=
  { s with frames := ⟨id, s.locals.checkpoint⟩ :: s.frames }

/-- Where the slots of an open scope begin and end. -/
def bounds? (s : ScopeStack) (id : ScopeId) : Option (SlotAddr × SlotAddr) :=
  match s.frames.reverse.dropWhile fun f => f.id != id with
  | [] => none
  | [f] => some (f.checkpoint.nextFree, s.locals.frontier.nextFree)
  | f :: g :: _ => some (f.checkpoint.nextFree, g.checkpoint.nextFree)

/-- Whether a slot is stored and was added while the scope was innermost. -/
def owns (s : ScopeStack) (id : ScopeId) (slot : SlotAddr) : Bool :=
  match s.bounds? id with
  | none => false
  | some (start, stop) => decide (start ≤ slot) && decide (slot < stop) && (s.locals.get? slot).isSome

/-- Why a scope may not be closed now, if it may not. -/
def closeFault? (s : ScopeStack) (id : ScopeId) : Option UsageError :=
  match s.innermost? with
  | none => some (.scopeAlreadyClosed id)
  | some top =>
    if top = id then none
    else if s.isOpen id then some (.scopeNotInnermost id top)
    else some (.scopeAlreadyClosed id)

/-- Removes the innermost frame and cuts the arena back to where it was opened. -/
def popFrame (s : ScopeStack) (h : Heap) : Except HandleError Nat × ScopeStack × Heap :=
  match s.frames with
  | [] => (.ok 0, s, h)
  | f :: below =>
    if s.locals.frontier.nextFree = f.checkpoint.nextFree then (.ok 0, { s with frames := below }, h)
    else
      match s.locals.delete f.checkpoint.nextFree h with
      | (.error e, a, h') => (.error e.toHandleError, ⟨a, below⟩, h')
      | (.ok removed, a, h') => (.ok removed, ⟨a, below⟩, h')

/-- Closes the innermost scope and releases its locals; answers how many slots
that removed. -/
def leave (s : ScopeStack) (id : ScopeId) (h : Heap) :
    Except HandleError (Nat × RootTransition) × ScopeStack × Heap :=
  match s.closeFault? id with
  | some e => (.error (.usage e), s, h)
  | none =>
    match s.popFrame h with
    | (.error e, s', h') => (.error e, s', h')
    | (.ok removed, s', h') => (.ok (removed, .between s.size s'.size), s', h')

/-- Adds a strong local to the innermost scope. -/
def add (s : ScopeStack) (o : ObjectId) (h : Heap) :
    Except HandleError LocalAdded × ScopeStack × Heap :=
  match s.innermost? with
  | none => (.error (.usage .noEnclosingScope), s, h)
  | some scope =>
    match s.locals.add o h with
    | (.error e, a, h') => (.error e.toHandleError, { s with locals := a }, h')
    | (.ok added, a, h') =>
      (.ok ⟨scope, added, .between s.size (s.size + 1)⟩, { s with locals := a }, h')

/-- Closes the innermost scope and moves the reference of one of its slots into
the parent scope. -/
def escape (s : ScopeStack) (id : ScopeId) (slot : SlotAddr) (h : Heap) :
    Except HandleError Escaped × ScopeStack × Heap :=
  match s.closeFault? id with
  | some e => (.error (.usage e), s, h)
  | none =>
    match s.frames[1]? with
    | none => (.error (.usage (.escapeWithoutParent id)), s, h)
    | some parent =>
      if !s.owns id slot then (.error (.usage (.slotOutsideScope slot id)), s, h)
      else
        match (s.locals.get? slot).map Slot.take with
        | none | some (none, _) => (.error (.usage (.doubleEscape slot)), s, h)
        | some (some o, x) =>
          match { s with locals := s.locals.write slot x }.popFrame h with
          | (.error e, s', h') => (.error e, s', h')
          | (.ok _, s', h') =>
            match s'.locals.adopt o h' with
            | (.error e, a, h'') => (.error e.toHandleError, { s' with locals := a }, h'')
            | (.ok added, a, h'') =>
              let s'' : ScopeStack := { s' with locals := a }
              (.ok ⟨parent.id, added, .between s.size s''.size⟩, s'', h'')

/-- The object that a local of an open scope points at. -/
def get (s : ScopeStack) (id : ScopeId) (slot : SlotAddr) : Except UsageError ObjectId :=
  if s.owns id slot then
    match (s.locals.get? slot).bind Slot.object with
    | some o => .ok o
    | none => .error (.staleLocal id)
  else .error (.staleLocal id)

/-- Releases every local, the last one first. -/
def discard (s : ScopeStack) (h : Heap) : Heap := (s.locals.clear h).2.2

end ScopeStack
end EngineHandles
