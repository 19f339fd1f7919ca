import Abacus.Log.Event
import Abacus.Text.Blank
import Abacus.Text.Numeral

/-
  Settings of the machine.

  They are set directly or read from two variables of the
  environment. Blanks around a variable do not count. A
  trace variable is on if it is one of four words in upper
  or lower case; a step limit that is no numeral is ignored,
  which is logged.

  Key definitions include:
    * `Abacus.Config`
    * `Abacus.Config.isOn`
    * `Abacus.Config.ofVariables`
-/

------------------------------------------------------------
-- Settings
------------------------------------------------------------

namespace Abacus

/-
  Whether a run is traced, and how many instructions it may
  take.
-/
structure Config where
  trace : Bool := false
  stepLimit : Option Nat := none
deriving DecidableEq

namespace Config

/- Turn the trace on or off. -/
def withTrace
    (config : Config)
    (trace : Bool) : Config :=
  { config with trace }

/- Set or remove the step limit. -/
def withStepLimit
    (config : Config)
    (stepLimit : Option Nat) : Config :=
  { config with stepLimit }

end Config

end Abacus

------------------------------------------------------------
-- Variables Of The Environment
------------------------------------------------------------

namespace Abacus

namespace Config

/- The variable that turns the trace on. -/
def traceVariable : String :=
  "YON_TRACE"

/- The variable that holds the step limit. -/
def stepLimitVariable : String :=
  "YON_STEP_LIMIT"

/- The words that turn a variable on, in lower case. -/
def onWords : List String :=
  ["1", "true", "yes", "on"]

/- Whether the value of a variable turns it on. -/
def isOn
    (raw : String) : Bool :=
  let word := (Text.trim raw.toList).map Char.toLower
  onWords.any fun w => w.toList == word

/- The step limit that a variable holds. -/
def readStepLimit
    (raw : String) : Except Text.NumeralError Nat :=
  Text.readNumeral (Text.trim raw.toList)

/- The step limit of the environment, and what is logged. -/
def stepLimitOf :
    Option String → Option Nat × List Event
| none => (none, [])
| some raw =>
    match readStepLimit raw with
    | .ok limit => (some limit, [])
    | .error _ => (none, [.invalidStepLimit raw])

/- The settings that the environment asks for. -/
def ofVariables
    (lookup : String → Option String) :
    Config × List Event :=
  let (stepLimit, log) :=
    stepLimitOf (lookup stepLimitVariable)
  ( { trace := (lookup traceVariable).any isOn
      stepLimit },
    log )

end Config

end Abacus
