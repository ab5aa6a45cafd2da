import ConfigSource.BuiltinName
import ConfigSource.Text.LowerCase

/-!
# Levels and thresholds

An entry of a log has a **level**. A logger has a **threshold**: it writes an entry exactly when the
level is at least as severe. Thresholds have names; a built-in name passes for one as well, but then
no logger can be made with it.

* `ConfigSource.Log.Level`, `ConfigSource.Log.Level.severity`: the six levels and their numbers;
* `ConfigSource.Log.Threshold`: the least level that is written, or none at all;
* `ConfigSource.Log.Threshold.parse?`: the threshold of a given name;
* `ConfigSource.Log.Threshold.isDeceptive`: whether a name passes for one without being one.
-/

namespace ConfigSource

namespace Log

/-- How severe an entry is. -/
inductive Level where
  /-- Every step. -/
  | trace
  /-- What helps to find a fault. -/
  | debug
  /-- What goes on. -/
  | info
  /-- Something is odd. -/
  | warn
  /-- Something failed. -/
  | error
  /-- The program cannot go on. -/
  | fatal
deriving DecidableEq, Inhabited

namespace Level

/-- The number of a level in an entry. -/
def severity : Level → Nat
  | trace => 10
  | debug => 20
  | info => 30
  | warn => 40
  | error => 50
  | fatal => 60

/-- The name of a level. -/
def name : Level → String
  | trace => "trace"
  | debug => "debug"
  | info => "info"
  | warn => "warn"
  | error => "error"
  | fatal => "fatal"

/-- All levels, from the least severe. -/
def all : List Level := [trace, debug, info, warn, error, fatal]

/-- The level of this name. -/
def ofName? (name : String) : Option Level := all.find? fun l => l.name == name

end Level

/-- Which entries are written. -/
inductive Threshold where
  /-- Those of this level and of the more severe ones. -/
  | atLeast (level : Level)
  /-- None. -/
  | silent
deriving DecidableEq, Inhabited

namespace Threshold

/-- Whether an entry of this level is written. -/
def admits : Threshold → Level → Bool
  | atLeast least, level => decide (least.severity ≤ level.severity)
  | silent, _ => false

/-- The threshold that is used where none is named. -/
def default : Threshold := .atLeast .info

/-- The threshold of this name: a level in letters of any case, or `silent`. -/
def parse? (name : String) : Option Threshold :=
  match Level.ofName? (Text.lowerCase name) with
  | some level => some (.atLeast level)
  | none => if name = "silent" then some .silent else none

/-- Whether a name is a built-in one, as it is spelled or in lower case, and so passes for the name
of a threshold. -/
def isDeceptive (name : String) : Bool :=
  (BuiltinName.ofName? name).isSome || (BuiltinName.ofName? (Text.lowerCase name)).isSome

/-- What is said where a name that passed turns out to be no threshold. -/
def deceptiveMessage : String := "unknown level undefined"

/-- What is said of a name that is no threshold. -/
def unknownMessage (name : String) : String :=
  "default level:" ++ name ++ " must be included in custom levels"

end Threshold

end Log

end ConfigSource
