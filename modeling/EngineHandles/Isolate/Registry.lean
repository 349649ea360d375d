/-
# Entered threads

A thread may enter an isolate again and again and has to leave it as often.  The
registry keeps an entry for each thread that is inside, with the number of
outstanding enters and what the thread was in before its first one.  Entries are
kept in the order in which their threads came in, and a thread that leaves does
not disturb the others.
-/
import EngineHandles.Ident

namespace EngineHandles

/-- A thread that is inside, and what it was in before; `P` names such things. -/
structure RegistryEntry (P : Type) where
  thread : ThreadKey
  count : UInt32
  previous : Option P
deriving DecidableEq, Repr

/-- The threads that are inside an isolate. -/
structure Registry (P : Type) where
  entries : List (RegistryEntry P) := []
deriving DecidableEq, Repr

/-- What undoing an enter led to. -/
inductive ExitOutcome (P : Type) where
  /-- The thread is still inside, with so many enters outstanding. -/
  | stayed (remaining : UInt32)
  /-- The thread left, and is back where it was before. -/
  | left (previous : Option P)
deriving DecidableEq, Repr

namespace Registry

variable {P : Type}

/-- The entry of a thread. -/
def get? (r : Registry P) (t : ThreadKey) : Option (RegistryEntry P) :=
  r.entries.find? fun e => e.thread == t

/-- Whether a thread is inside. -/
def contains (r : Registry P) (t : ThreadKey) : Bool := (r.get? t).isSome

/-- Whether any thread is inside. -/
def isEmpty (r : Registry P) : Bool := r.entries.isEmpty

/-- The number of threads inside. -/
def size (r : Registry P) : Nat := r.entries.length

/-- The threads inside, in the order in which they came in. -/
def threads (r : Registry P) : List ThreadKey := r.entries.map RegistryEntry.thread

/-- The number of outstanding enters of a thread. -/
def count (r : Registry P) (t : ThreadKey) : UInt32 := ((r.get? t).map RegistryEntry.count).getD 0

/-- Changes the entry of a thread. -/
def update (r : Registry P) (t : ThreadKey) (f : RegistryEntry P → RegistryEntry P) : Registry P :=
  ⟨r.entries.map fun e => if e.thread = t then f e else e⟩

/-- Removes the entry of a thread. -/
def erase (r : Registry P) (t : ThreadKey) : Registry P :=
  ⟨r.entries.filter fun e => e.thread != t⟩

/-- Records one enter.  What the thread was in before is computed only if the
thread was outside; the computation may change a state.  Answers the number of
outstanding enters, which wraps at `2 ^ 32`. -/
def enterWith {σ : Type} (r : Registry P) (t : ThreadKey) (previous : σ → Option P × σ) (s : σ) :
    UInt32 × Registry P × σ :=
  match r.get? t with
  | some e => (e.count + 1, r.update t fun e => { e with count := e.count + 1 }, s)
  | none => let (p, s') := previous s; (1, ⟨r.entries ++ [⟨t, 1, p⟩]⟩, s')

/-- Records one enter of a thread that was in `previous`. -/
def enter (r : Registry P) (t : ThreadKey) (previous : Option P) : UInt32 × Registry P :=
  let (count, r', _) := r.enterWith t (fun s => (previous, s)) ()
  (count, r')

/-- Undoes one enter, or answers nothing if the thread is outside. -/
def exit (r : Registry P) (t : ThreadKey) : Option (ExitOutcome P) × Registry P :=
  match r.get? t with
  | none => (none, r)
  | some e =>
    let remaining := e.count - 1
    if remaining > 0 then
      (some (.stayed remaining), r.update t fun e => { e with count := e.count - 1 })
    else (some (.left e.previous), r.erase t)

/-- Changes what a thread was in before.  Answers whether the thread is inside. -/
def relink (r : Registry P) (t : ThreadKey) (previous : Option P) : Bool × Registry P :=
  (r.contains t, r.update t fun e => { e with previous })

end Registry
end EngineHandles
