import ConfigSource.Settings.Layered

/-!
# Sources of settings

A **source** gives a table of raw settings and has a name, by which a rejection says where a value
came from. A source can be a table held in memory, the variables of an **environment** that begin
with a given text – which is cut off their names – or a source that fails.

* `ConfigSource.Source`, `ConfigSource.Source.name`;
* `ConfigSource.Source.ofEnvironment`: the variables of an environment, the text that their names
  begin with left open;
* `ConfigSource.Source.load`: the settings, in reading order, or what the source throws;
* `ConfigSource.Source.settingOf?`: the setting that a variable of an environment stands for.
-/

namespace ConfigSource

/-- Where raw settings come from. -/
inductive Source where
  /-- A table held in memory. -/
  | object (name : String) (values : Table Value)
  /-- The variables of an environment whose names begin with `start`. -/
  | environment (start : String) (held : Table Value)
  /-- A source that fails with this error. -/
  | failing (error : Value)

namespace Source

/-- The beginning of the names of variables, where no other is asked for. -/
def defaultStart : String := "CONFKIT_"

/-- The variables of an environment, those that begin with `defaultStart` where no other text is
asked for. An empty text is one: all variables begin with it. -/
def ofEnvironment (start : Option String) (held : Table Value) : Source :=
  .environment (start.getD defaultStart) held

/-- The name of a source. -/
def name : Source → String
  | .object name _ => name
  | .environment _ _ => "env"
  | .failing _ => "throw"

/-- The setting that a variable stands for: what follows `start` in its name. -/
def settingOf? (start name : String) : Option String :=
  if start.toList.isPrefixOf name.toList then
    some (String.ofList (name.toList.drop start.toList.length))
  else none

/-- The settings that variables stand for, each under its key. -/
def settingsOf (start : String) (held : Table Value) : List (String × Value) :=
  held.filterMap fun m => (settingOf? start m.1).map fun key => (key, m.2)

/-- The settings that an environment gives: what a table holds when they were written to it. -/
def ofVariables (start : String) (held : Table Value) : Table Value :=
  (Layered.empty.assignAll (settingsOf start (Table.ordered held))).values

/-- The settings of a source, in reading order. -/
def load : Source → Except Value (Table Value)
  | .object _ values => .ok (Table.ordered values)
  | .environment start held => .ok (Table.ordered (ofVariables start held))
  | .failing error => .error error

end Source

end ConfigSource
