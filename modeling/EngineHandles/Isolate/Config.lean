/-
# The configuration of an isolate

An isolate has one arena of local slots for each thread and one arena of
persistent slots.  The configuration of the locals is checked first.
-/
import EngineHandles.Arena.Config

namespace EngineHandles

/-- How an isolate is set up. -/
structure IsolateConfig where
  /-- The arena of each thread's locals. -/
  locals : ArenaConfig := {}
  /-- The arena of the persistent handles. -/
  persistents : ArenaConfig := {}
  /-- Whether somebody listens to root events. -/
  observed : Bool := false
deriving DecidableEq, Repr

/-- Which part of an isolate's configuration cannot be used, and why. -/
inductive ConfigError where
  | locals (cause : ArenaError)
  | persistents (cause : ArenaError)
deriving DecidableEq, Repr

namespace ConfigError

/-- The arena error behind a configuration error. -/
def cause : ConfigError → ArenaError
  | .locals e => e
  | .persistents e => e

/-- The name of a configuration error, by which a program tells errors apart. -/
def name : ConfigError → String
  | .locals _ => "Locals"
  | .persistents _ => "Persistents"

/-- The wording of a configuration error. -/
def message : ConfigError → String
  | .locals e => "locals: " ++ e.message
  | .persistents e => "persistents: " ++ e.message

end ConfigError

/-- The first thing that is wrong with a configuration. -/
def IsolateConfig.fault? (c : IsolateConfig) : Option ConfigError :=
  match c.locals.fault?, c.persistents.fault? with
  | some f, _ => some (.locals (.invalidConfig f))
  | none, some f => some (.persistents (.invalidConfig f))
  | none, none => none

end EngineHandles
