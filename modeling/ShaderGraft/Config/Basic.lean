import ShaderGraft.Config.LogLevel
import ShaderGraft.Injector

/-!
Configurations: where a module is, which function of it is injected into, and how.
-/

namespace ShaderGraft

/-- A configuration. Empty texts and a zero capacity stand for the defaults. -/
structure Config where
  modulePath : Bytes := []
  function : Bytes := []
  instructionSet : Bytes := []
  capacity : Int := 0
  logLevel : Bytes := []
deriving DecidableEq, Repr

/-- Why a configuration is not valid. -/
inductive ConfigError where
  | negativeCapacity (capacity : Int)
  | level (text : Bytes) (cause : LevelError)
deriving DecidableEq, Repr

def ConfigError.message : ConfigError → String
  | .negativeCapacity capacity => "negative capacity " ++ toString capacity
  | .level text cause => "log_level: " ++ cause.message text

namespace Config

/-- Checks the capacity, then the log level. -/
def validate (c : Config) : Except ConfigError Unit := do
  if c.capacity < 0 then throw (.negativeCapacity c.capacity)
  if c.logLevel.isEmpty then return
  let _ ← (readLevel c.logLevel).mapError (.level c.logLevel)

/-- The number of settings that a configuration changes. The module path is none of them. -/
def optionCount (c : Config) : Nat :=
  [!c.function.isEmpty, !c.instructionSet.isEmpty, decide (c.capacity > 0),
    !c.logLevel.isEmpty].count true

/-- The options that a configuration stands for. With a log level, records go to the log and are not
kept. -/
def options (c : Config) : Options :=
  { function := if c.function.isEmpty then defaultFunction else c.function
    instructionSet := c.instructionSet
    capacity := c.capacity
    quiet := !c.logLevel.isEmpty }

end Config

end ShaderGraft
