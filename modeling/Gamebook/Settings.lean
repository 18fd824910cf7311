import Gamebook.Text.Blank
import Gamebook.Text.Uppercase

/-!
# Settings

Settings come from environment variables.  A switch is on for `1`, `true`, `yes` and `on`, in any
case and with blanks around them, and has its default if it is unset or blank.
-/

namespace Gamebook

/-- The settings of the program. -/
structure Settings where
  logLevel : String
  logJson : Bool
  allowCycles : Bool
  deriving DecidableEq, Repr

namespace Settings

/-- The words that turn a switch on. -/
def onWords : List (List Char) :=
  ["1", "true", "yes", "on"].map String.toList

/-- The value of a switch. -/
def switch (value : Option String) (default : Bool) : Bool :=
  match value with
  | none => default
  | some s =>
    let word := Text.strip s.toList
    if word.isEmpty then default else onWords.contains (Text.lowerAscii word)

/-- The variable with the log level. -/
def logLevelName : String :=
  "NARRGEN_LOG_LEVEL"

/-- The switch for log records in JSON. -/
def logJsonName : String :=
  "NARRGEN_LOG_JSON"

/-- The switch that allows cycles. -/
def allowCyclesName : String :=
  "NARRGEN_ALLOW_CIRCULAR"

/-- The settings in an environment. -/
def ofEnvironment (lookup : String → Option String) : Settings where
  logLevel := String.ofList (Text.upper ((lookup logLevelName).getD "WARNING").toList)
  logJson := switch (lookup logJsonName) false
  allowCycles := switch (lookup allowCyclesName) true

end Settings

end Gamebook
