import ConfigSource.Value

/-!
# Dialects

The **dialects** in which a configuration source can be written, each with the name under which
settings and answers give it.

* `ConfigSource.Dialect`, `ConfigSource.Dialect.name`, `ConfigSource.Dialect.all`;
* `ConfigSource.Dialect.ofName?`: the dialect of a name, spelled exactly;
* `ConfigSource.Value.isDialectName`: whether a value is such a name;
* `ConfigSource.pathTokenSeparator`: what joins the tokens of a path in an origin description.
-/

namespace ConfigSource

/-- How a configuration source is written. -/
inductive Dialect where
  /-- Strict JSON. -/
  | json
  /-- JSON with comments, includes and substitutions. -/
  | conf
  /-- Lines of keys and values; dotted keys are paths. -/
  | properties
deriving DecidableEq, Inhabited

namespace Dialect

/-- The name of a dialect. -/
def name : Dialect → String
  | json => "json"
  | conf => "conf"
  | properties => "properties"

/-- All dialects. -/
def all : List Dialect := [json, conf, properties]

/-- The dialect of this name, in lower case letters. -/
def ofName? (name : String) : Option Dialect := all.find? fun d => d.name == name

@[simp]
theorem ofName?_name (d : Dialect) : ofName? d.name = some d := by
  cases d <;> decide

end Dialect

/-- Whether the value is the name of a dialect. -/
def Value.isDialectName : Value → Bool
  | .text s => (Dialect.ofName? s).isSome
  | _ => false

/-- What joins the tokens of a path in an origin description. -/
def pathTokenSeparator : String := "->"

end ConfigSource
