/-
# Trials of weak populations

A trial sets up one isolate, enters it, makes a pool of objects of which it keeps
some alive, and a weak population over the pool.  Then it sweeps a number of times
and looks at everything after each sweep.

A trial that leaves out the enter is refused at its first handle; without objects
there is nothing to refuse.
-/
import EngineHandles.Workload.Population

namespace EngineHandles
namespace Workload

/-- How a trial is set up. -/
structure Trial where
  slabSize : UInt32 := 4
  /-- The number of objects. -/
  count : Nat := 0
  /-- Every so many-th handle is revived; zero for none. -/
  reviveEvery : Nat := 0
  /-- The positions of the objects that are kept alive, one strong referrer each. -/
  held : List Nat := []
  sweeps : Nat := 1
  /-- Whether the thread stays outside the isolate. -/
  outside : Bool := false
deriving DecidableEq, Repr

/-- Why a trial came to nothing. -/
inductive TrialError where
  /-- The slab size cannot be used. -/
  | rejected (cause : ConfigError)
  /-- A handle could not be made. -/
  | failed (cause : HandleError)
deriving DecidableEq, Repr

/-- What is seen of one handle: its slot, and the word that its object carries. -/
structure Sighting where
  slot : SlotAddr
  isWeak : Bool
  isNearDeath : Bool
  word : Option UInt64
deriving DecidableEq, Repr

/-- What is seen after a sweep. -/
structure Survey where
  report : SweepReport
  stats : IsolateStats
  handles : List Sighting
deriving DecidableEq, Repr

/-- Looks at a handle. -/
def Sighting.ofHandle (i : Isolate) (h : Heap) (p : PersistentHandle) : Sighting where
  slot := p.slot
  isWeak := i.isWeak p
  isNearDeath := i.isNearDeath p h
  word := (i.getPersistent p).bind fun o => (h.cell o).word?

/-- Sweeps so many times and looks at the handles after each sweep. -/
def surveys (i : IsolateId) (handles : List PersistentHandle) : Nat → World → List Survey
  | 0, _ => []
  | n + 1, w =>
    match w.perform? i fun iso shared => iso.collectWeak shared with
    | none => []
    | some (report, w') =>
      match w'.isolate? i with
      | none => []
      | some iso =>
        { report, stats := iso.stats, handles := handles.map (.ofHandle iso w'.heap) } ::
          surveys i handles n w'

namespace Trial

/-- The thread that a trial runs on. -/
def thread : ThreadKey := ⟨1⟩

/-- Enters the isolate, unless the trial stays outside. -/
def start (tr : Trial) (i : IsolateId) (w : World) : World :=
  if tr.outside then w else ((w.enter? thread i).map Prod.snd).getD w

/-- Runs a trial. -/
def run (tr : Trial) : Except TrialError (List Survey) :=
  match ({} : World).newIsolate (uniformConfig tr.slabSize) with
  | (.error e, _) => .error (.rejected e)
  | (.ok i, fresh) =>
    let w := tr.start i fresh
    let (objects, heap) := objectPool w.heap tr.count
    let kept := tr.held.filterMap fun k => objects[k]?
    let w := w.withHeap (kept.foldl (fun h o => h.retain o .strong) heap)
    match w.perform? i (weakPopulation thread tr.reviveEvery 0 objects) with
    | none => .ok []
    | some (.error e, _) => .error (.failed e)
    | some (.ok handles, w') => .ok (surveys i handles tr.sweeps w')

end Trial
end Workload
end EngineHandles
