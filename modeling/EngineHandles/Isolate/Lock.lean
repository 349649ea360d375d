/-
# The lock of an isolate

One thread at a time owns the lock, and it may take it several times over: the
depth counts how often.  The first time a lock is taken, its isolate goes over to
locking mode and stays there.  Another thread has to wait, which is answered by
nothing.

A thread may yield the lock, giving up every level at once, and later regain it at
the depth that it had.
-/
import EngineHandles.Ident

namespace EngineHandles

/-- Who owns a lock, how deep, and whether it was ever taken. -/
structure Lock where
  owner : Option ThreadKey := none
  depth : UInt32 := 0
  lockingMode : Bool := false
deriving DecidableEq, Repr

namespace Lock

/-- Whether a thread owns the lock. -/
def isHeldBy (l : Lock) (t : ThreadKey) : Bool := l.owner == some t

/-- Whether a thread would have to wait for the lock. -/
def blocks (l : Lock) (t : ThreadKey) : Bool := l.owner.any fun o => o != t

/-- Takes the lock one level deeper, unless the thread would have to wait.  The
depth wraps at `2 ^ 32`. -/
def acquire? (l : Lock) (t : ThreadKey) : Option Lock :=
  if l.blocks t then none
  else some { owner := some t, depth := l.depth + 1, lockingMode := true }

/-- Takes the lock at a given depth, unless the thread would have to wait. -/
def regain? (l : Lock) (t : ThreadKey) (depth : UInt32) : Option Lock :=
  if l.blocks t then none
  else some { owner := some t, depth, lockingMode := true }

/-- The lock at a given depth; at depth zero nobody owns it. -/
def atDepth (l : Lock) (depth : UInt32) : Lock :=
  { l with depth, owner := if depth = 0 then none else l.owner }

/-- Gives up one level, if the thread owns the lock. -/
def release (l : Lock) (t : ThreadKey) : Lock :=
  if l.isHeldBy t then l.atDepth (if l.depth = 0 then 0 else l.depth - 1) else l

/-- Gives up every level, if the thread owns the lock.  Answers how many there were. -/
def yield (l : Lock) (t : ThreadKey) : UInt32 × Lock :=
  if l.isHeldBy t then (l.depth, l.atDepth 0) else (0, l)

end Lock
end EngineHandles
