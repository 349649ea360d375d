/-
# Local and persistent handles

A handle is plain data: it names an isolate and a slot, and a local handle names
its scope as well.  Whether it still denotes an object is asked of the isolate.
-/
import EngineHandles.Ident
import EngineHandles.SlotAddr

namespace EngineHandles

/-- A handle that ends with its scope. -/
structure LocalHandle where
  isolate : IsolateId
  scope : ScopeId
  slot : SlotAddr
deriving DecidableEq, Repr

/-- The form in which a local handle is shown to a programmer. -/
def LocalHandle.debugText (l : LocalHandle) : String :=
  "Local(" ++ l.slot.text ++ "@" ++ toString l.scope ++ "/" ++ toString l.isolate ++ ")"

/-- A handle that lasts until it is disposed of. -/
structure PersistentHandle where
  isolate : IsolateId
  slot : SlotAddr
deriving DecidableEq, Repr

/-- The form in which a persistent handle is shown to a programmer. -/
def PersistentHandle.debugText (p : PersistentHandle) : String :=
  "Persistent(" ++ p.slot.text ++ "/" ++ toString p.isolate ++ ")"

end EngineHandles
