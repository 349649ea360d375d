/-
# What can go wrong with a handle

A usage error is a mistake of the caller: a local made outside every scope, a
scope closed out of order, a handle used after it ended, an isolate touched
without entering it.  A handle error is a usage error, or storage that cannot
grow, or an engine that already failed.  Every error names what it is about, and
its wording is one function of it.
-/
import EngineHandles.Ident
import EngineHandles.SlotAddr

namespace EngineHandles

/-- A mistake of the caller. -/
inductive UsageError where
  /-- A local was asked for while no scope is open. -/
  | noEnclosingScope
  /-- The scope is not open on this thread. -/
  | scopeAlreadyClosed (scope : ScopeId)
  /-- The scope is open, but another one was opened inside it. -/
  | scopeNotInnermost (scope innermost : ScopeId)
  /-- The scope has no parent to move a local into. -/
  | escapeWithoutParent (scope : ScopeId)
  /-- The slot was emptied by an earlier escape. -/
  | doubleEscape (slot : SlotAddr)
  /-- The slot does not belong to the scope that is to be left. -/
  | slotOutsideScope (slot : SlotAddr) (scope : ScopeId)
  /-- The local outlived its scope. -/
  | staleLocal (scope : ScopeId)
  /-- No slot has this address. -/
  | invalidAddress (slot : SlotAddr)
  /-- The thread has not entered the isolate. -/
  | notEntered (isolate : IsolateId)
  /-- The isolate is in locking mode and the thread does not hold its lock. -/
  | notLocked (isolate : IsolateId)
  /-- The handle belongs to another isolate. -/
  | wrongIsolate (expected actual : IsolateId)
deriving DecidableEq, Repr

/-- The wording of a usage error. -/
def UsageError.message : UsageError → String
  | .noEnclosingScope => "cannot create a local handle without a handle scope"
  | .scopeAlreadyClosed s => "handle scope " ++ toString s ++ " is already closed"
  | .scopeNotInnermost s i =>
    "handle scope " ++ toString s ++ " is not innermost (scope " ++ toString i ++ " is still open)"
  | .escapeWithoutParent s => "cannot escape from outermost handle scope " ++ toString s
  | .doubleEscape a => "slot " ++ a.text ++ " was already escaped"
  | .slotOutsideScope a s => "slot " ++ a.text ++ " does not belong to handle scope " ++ toString s
  | .staleLocal s => "local handle used after its scope " ++ toString s ++ " closed"
  | .invalidAddress a => "address " ++ a.text ++ " is not in any allocated slab"
  | .notEntered i => "thread has not entered isolate " ++ toString i
  | .notLocked i => "thread does not hold the lock of isolate " ++ toString i
  | .wrongIsolate e a =>
    "handle belongs to isolate " ++ toString e ++ " but was used with isolate " ++ toString a

/-- The name of a usage error, by which a program tells errors apart. -/
def UsageError.name : UsageError → String
  | .noEnclosingScope => "NoEnclosingScope"
  | .scopeAlreadyClosed _ => "ScopeAlreadyClosed"
  | .scopeNotInnermost _ _ => "ScopeNotInnermost"
  | .escapeWithoutParent _ => "EscapeWithoutParent"
  | .doubleEscape _ => "DoubleEscape"
  | .slotOutsideScope _ _ => "SlotOutsideScope"
  | .staleLocal _ => "StaleLocal"
  | .invalidAddress _ => "InvalidAddress"
  | .notEntered _ => "NotEntered"
  | .notLocked _ => "NotLocked"
  | .wrongIsolate _ _ => "WrongIsolate"

/-- Why an operation on handles failed. -/
inductive HandleError where
  /-- The caller made a mistake. -/
  | usage (cause : UsageError)
  /-- No slab is left: `slabs` are in use and `limit` are allowed. -/
  | resourceExhausted (slabs limit : Nat)
  /-- The engine failed earlier. -/
  | engineDead
deriving DecidableEq, Repr

/-- The wording of a handle error. -/
def HandleError.message : HandleError → String
  | .usage cause => "usage error: " ++ cause.message
  | .resourceExhausted slabs limit =>
    "slab storage exhausted: " ++ toString slabs ++ " of " ++ toString limit ++ " slabs in use"
  | .engineDead => "engine is dead"

/-- The name of a handle error; a usage error goes by its own. -/
def HandleError.name : HandleError → String
  | .usage cause => cause.name
  | .resourceExhausted _ _ => "ResourceExhausted"
  | .engineDead => "EngineDead"

/-- The usage error behind a handle error, if there is one. -/
def HandleError.cause? : HandleError → Option UsageError
  | .usage cause => some cause
  | _ => none

end EngineHandles
