/-
# Identities

Objects, isolates and threads are numbered in the order in which they are first
seen, and a number is never given twice.  A scope id is a 64-bit word drawn from
one supply that all isolates and threads share; the supply starts at `1` and
wraps, so ids are distinct as long as fewer than `2 ^ 64` scopes are opened.
-/

namespace EngineHandles

/-- An object, named by its position among all objects ever made. -/
structure ObjectId where
  index : Nat
deriving DecidableEq, Repr

/-- The number under which an object is reported: the first object is `1`. -/
def ObjectId.number (o : ObjectId) : Nat := o.index + 1

/-- An isolate, named by its number; the first isolate is `1`. -/
structure IsolateId where
  number : Nat
deriving DecidableEq, Repr

instance : ToString IsolateId := ⟨fun i => toString i.number⟩

/-- A thread of execution.  A thread that ends does not hand its key on. -/
structure ThreadKey where
  number : Nat
deriving DecidableEq, Repr

/-- A handle scope. -/
structure ScopeId where
  raw : UInt64
deriving DecidableEq, Repr

namespace ScopeId

instance : ToString ScopeId := ⟨fun s => toString s.raw⟩

/-- The id of the first scope ever opened. -/
def first : ScopeId := ⟨1⟩

/-- The id after `s`; the supply wraps at `2 ^ 64`. -/
def next (s : ScopeId) : ScopeId := ⟨s.raw + 1⟩

end ScopeId
end EngineHandles
