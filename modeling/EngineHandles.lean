import EngineHandles.Foreign.Surface
import EngineHandles.World.Guard
import EngineHandles.Workload.Trial
import EngineHandles.Proofs.Scope.Refinement
import EngineHandles.Proofs.Arena.Refinement
import EngineHandles.Proofs.Persistent.Records
import EngineHandles.Proofs.Persistent.Counters
import EngineHandles.Proofs.Persistent.Stale
import EngineHandles.Proofs.Persistent.Survival
import EngineHandles.Proofs.World.Lifetime
import EngineHandles.Proofs.World.Escape
import EngineHandles.Proofs.World.Locals
import EngineHandles.Proofs.World.Entry
import EngineHandles.Proofs.World.Exclusion
import EngineHandles.Proofs.World.Nesting
import EngineHandles.Proofs.World.Balance
import EngineHandles.Proofs.World.Access
import EngineHandles.Proofs.Isolate.Rooting
import EngineHandles.Proofs.World.Log
import EngineHandles.Proofs.World.Rooting
import EngineHandles.Proofs.World.Reports
import EngineHandles.Proofs.Isolate.Atomic
import EngineHandles.Proofs.World.Atomic
import EngineHandles.Proofs.Isolate.Desk
import EngineHandles.Proofs.World.Desks
import EngineHandles.Proofs.World.Interference
import EngineHandles.Proofs.Heap.Waning
import EngineHandles.Proofs.Isolate.Waning
import EngineHandles.Proofs.World.Held
import EngineHandles.Proofs.Lending.Refinement
import EngineHandles.Proofs.Arena.Truncation
import EngineHandles.Proofs.World.Ending
import EngineHandles.Proofs.Foreign.Simulation
import EngineHandles.Proofs.Arena.Edge
import EngineHandles.Proofs.Persistent.Repeated
import EngineHandles.Proofs.Scope.Refusals
import EngineHandles.Proofs.Heap.Calls
import EngineHandles.Proofs.Isolate.Stays
import EngineHandles.Proofs.Heap.Exact
import EngineHandles.Proofs.Persistent.Losses
import EngineHandles.Proofs.World.Layers
import EngineHandles.Proofs.World.ScopeGuards
import EngineHandles.Proofs.World.Frames
import EngineHandles.Proofs.World.Brackets
import EngineHandles.Proofs.Foreign.SlotRefs
