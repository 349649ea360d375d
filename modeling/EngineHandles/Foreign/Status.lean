/-
# Status numbers

A call from outside answers with a number: zero for success, a negative number for
a failure.  Errors of one family share a number.
-/
import EngineHandles.Isolate.Config
import EngineHandles.Fault

namespace EngineHandles
namespace Foreign

/-- The outcome of a call from outside. -/
inductive Status where
  | ok
  /-- A handle does not resolve. -/
  | invalidHandle
  /-- A pointer that has to be given is null. -/
  | invalidArgument
  | configError
  | noScope
  | scopeMisuse
  | staleHandle
  | notEntered
  | resourceExhausted
  | engineDead
  /-- The library cannot reach its own tables. -/
  | internalError
  /-- The call broke off. -/
  | panicked
deriving DecidableEq, Repr

/-- The number of an outcome. -/
def Status.code : Status → Int
  | .ok => 0
  | .invalidHandle => -1
  | .invalidArgument => -2
  | .configError => -3
  | .noScope => -4
  | .scopeMisuse => -5
  | .staleHandle => -6
  | .notEntered => -7
  | .resourceExhausted => -8
  | .engineDead => -9
  | .internalError => -10
  | .panicked => -128

end Foreign

/-- The status of a usage error. -/
def UsageError.status : UsageError → Foreign.Status
  | .noEnclosingScope => .noScope
  | .scopeAlreadyClosed _ => .scopeMisuse
  | .scopeNotInnermost _ _ => .scopeMisuse
  | .escapeWithoutParent _ => .scopeMisuse
  | .doubleEscape _ => .scopeMisuse
  | .slotOutsideScope _ _ => .scopeMisuse
  | .staleLocal _ => .staleHandle
  | .invalidAddress _ => .staleHandle
  | .wrongIsolate _ _ => .staleHandle
  | .notEntered _ => .notEntered
  | .notLocked _ => .notEntered

/-- The status of a handle error. -/
def HandleError.status : HandleError → Foreign.Status
  | .usage cause => cause.status
  | .resourceExhausted _ _ => .resourceExhausted
  | .engineDead => .engineDead

/-- The status of a configuration error. -/
def ConfigError.status (_ : ConfigError) : Foreign.Status := .configError

/-- The status of an operation on handles. -/
def Foreign.Status.ofExcept {α : Type} : Except HandleError α → Foreign.Status
  | .ok _ => .ok
  | .error e => e.status

end EngineHandles
