/-
# The size of an arena

An arena stores slots in slabs of one size and holds a limited number of slabs.
Both numbers are 32-bit words, at least `1` and below the greatest word, so that
no address of an arena is the null address.  Of several faults the slab size is
reported before the slab limit.
-/
import EngineHandles.Fault

namespace EngineHandles

/-- The number of slots in a slab and the number of slabs at most. -/
structure ArenaConfig where
  slabSize : UInt32 := 1024
  maxSlabs : UInt32 := 65536
deriving DecidableEq, Repr

/-- What is wrong with an arena's configuration. -/
inductive ConfigFault where
  /-- A slab must have a slot. -/
  | emptySlab
  /-- The greatest word is no slab size. -/
  | slabTooLarge
  /-- There must be a slab, and fewer than the greatest word. -/
  | slabLimit (limit : UInt32)
  /-- A fault in words of the embedder's own. -/
  | other (reason : String)
deriving DecidableEq, Repr

/-- The wording of a fault. -/
def ConfigFault.message : ConfigFault → String
  | .emptySlab => "slab_size must be at least 1"
  | .slabTooLarge => "slab_size must be below u32::MAX"
  | .slabLimit limit => "max_slabs " ++ toString limit ++ " out of range"
  | .other reason => reason

namespace ArenaConfig

/-- The greatest 32-bit word, which neither number may be. -/
def greatestWord : UInt32 := 0xFFFFFFFF

/-- The first thing that is wrong with a configuration. -/
def fault? (c : ArenaConfig) : Option ConfigFault :=
  if c.slabSize = 0 then some .emptySlab
  else if c.slabSize = greatestWord then some .slabTooLarge
  else if c.maxSlabs = 0 ∨ c.maxSlabs = greatestWord then some (.slabLimit c.maxSlabs)
  else none

/-- Whether a configuration can be used. -/
def IsValid (c : ArenaConfig) : Prop := c.fault? = none

instance (c : ArenaConfig) : Decidable c.IsValid := inferInstanceAs (Decidable (_ = _))

/-- **What a valid configuration promises:** both numbers lie strictly between `0`
and the greatest word. -/
theorem isValid_iff (c : ArenaConfig) :
    c.IsValid ↔ c.slabSize ≠ 0 ∧ c.slabSize ≠ greatestWord ∧
      c.maxSlabs ≠ 0 ∧ c.maxSlabs ≠ greatestWord := by
  simp only [IsValid, fault?]
  grind

end ArenaConfig

/-- Why an arena refused an operation. -/
inductive ArenaError where
  /-- The last slab is full and no further one is allowed. -/
  | capacityExceeded (slabs limit : Nat)
  /-- The address lies in no slab. -/
  | addressOutOfRange (address : SlotAddr)
  /-- The configuration cannot be used. -/
  | invalidConfig (fault : ConfigFault)
deriving DecidableEq, Repr

namespace ArenaError

/-- The wording of an arena error. -/
def message : ArenaError → String
  | .capacityExceeded slabs limit =>
    "slab capacity exceeded: " ++ toString slabs ++ " of " ++ toString limit ++ " slabs in use"
  | .addressOutOfRange a => "address " ++ a.text ++ " is outside every allocated slab"
  | .invalidConfig f => "invalid arena config: " ++ f.message

/-- The name of an arena error, by which a program tells errors apart. -/
def name : ArenaError → String
  | .capacityExceeded _ _ => "CapacityExceeded"
  | .addressOutOfRange _ => "AddressOutOfRange"
  | .invalidConfig _ => "InvalidConfig"

/-- How an arena error is reported to users of handles.  A configuration is checked
before any handle exists, so a fault in it counts as a dead engine. -/
def toHandleError : ArenaError → HandleError
  | .capacityExceeded slabs limit => .resourceExhausted slabs limit
  | .addressOutOfRange a => .usage (.invalidAddress a)
  | .invalidConfig _ => .engineDead

end ArenaError
end EngineHandles
