/-
# Weak populations

A population is one persistent handle for each of a number of objects, every one of
them made weak with its position as its parameter.  Every so many-th callback
revives its handle and the others let go.
-/
import EngineHandles.Workload.Tracked
import EngineHandles.World.Basic

namespace EngineHandles
namespace Workload

/-- An isolate whose arenas all have slabs of one size. -/
def uniformConfig (slabSize : UInt32) : IsolateConfig where
  locals := { slabSize }
  persistents := { slabSize }

/-- The complaint about a slab size that cannot be used. -/
def rejection (e : ConfigError) : String := "benchmark isolate config rejected: " ++ e.message

/-- Makes `n` objects that carry the words from `0` on. -/
def objectPool (h : Heap) (n : Nat) : List ObjectId × Heap :=
  makeAll h ((List.range n).map fun k => .word (.ofNat k))

/-- The weak record of the handle at position `k`: it revives if `every` divides `k`
and is not zero. -/
def populationRecord (every k : Nat) : WeakRecord where
  param := .ofNat k
  callback _ _ := { outcome := if every ≠ 0 ∧ k % every = 0 then .revive else .release }

/-- Makes a weak persistent handle for each object, the first at position `k`. -/
def weakPopulation (t : ThreadKey) (every : Nat) :
    Nat → List ObjectId → Isolate → Shared → Isolate.Outcome (List PersistentHandle)
  | _, [], i, w => (.ok [], i, w)
  | k, o :: rest, i, w =>
    match i.makePersistent t o w with
    | (.error e, i', w') => (.error e, i', w')
    | (.ok p, i', w') =>
      match i'.makeWeak t p (populationRecord every k) w' with
      | (.error e, i'', w'') => (.error e, i'', w'')
      | (.ok (), i'', w'') =>
        let (others, reached) := weakPopulation t every (k + 1) rest i'' w''
        (others.map (p :: ·), reached)

end Workload
end EngineHandles
