import ConfigSource.Decimal.Numeral
import ConfigSource.Dialect
import ConfigSource.Error
import ConfigSource.Text.LowerCase

/-!
# The schema of settings

Three settings are known: the dialect, the origin description, and whether a missing source is
tolerated. Each has a rule of its own, and a value that breaks its rule gives one or more
**issues**. Names of dialects and truth values are compared after lower-casing; nothing is trimmed.

What stands in place of an origin description is asked for a length as well, which is read as a
number. A length that has no text cannot be read, and the check as a whole fails, whatever issues
there are.

* `ConfigSource.SettingKey`, `ConfigSource.Settings`: the known settings and their checked values;
* `ConfigSource.Issue`, with its path, its message and its place in a list for people;
* `ConfigSource.Refusal`: all issues in order, or why there was no check;
* `ConfigSource.Settings.check`: the settings under a look-up, or their refusal;
* `ConfigSource.Settings.ofValue`: the settings of any value.
-/

namespace ConfigSource

/-- The known settings. -/
inductive SettingKey where
  /-- The dialect of the source. -/
  | dialect
  /-- The origin description. -/
  | origin
  /-- Whether a missing source is tolerated. -/
  | allowMissing
deriving DecidableEq

namespace SettingKey

/-- The key of a setting. -/
def name : SettingKey → String
  | dialect => "SYNTAX"
  | origin => "ORIGIN"
  | allowMissing => "ALLOW_MISSING"

/-- All settings, in the order in which they are checked. -/
def all : List SettingKey := [dialect, origin, allowMissing]

/-- Whether a key is that of a known setting. -/
def isKnown (key : String) : Bool := all.any fun k => k.name == key

end SettingKey

/-- The checked settings; what was not given is missing. -/
structure Settings where
  /-- The dialect. -/
  dialect : Option Dialect
  /-- The origin description, never empty. -/
  origin : Option String
  /-- Whether a missing source is tolerated. -/
  allowMissing : Option Bool
deriving DecidableEq

/-- What a length was asked of. -/
inductive Measured where
  /-- The characters of a text. -/
  | text
  /-- The items of a list. -/
  | list
  /-- A record that gives a length itself. -/
  | record
deriving DecidableEq

/-- A rule that a value breaks. -/
inductive Issue where
  /-- The settings are not a record. -/
  | notRecord (received : Kind)
  /-- The value of a setting is not a text. -/
  | notText (key : SettingKey) (received : Kind)
  /-- The text names no dialect. -/
  | unknownDialect
  /-- The origin description is empty, or what stands in its place is. -/
  | emptyOrigin (measured : Measured)
  /-- The value is no truth value. -/
  | notBoolean
deriving DecidableEq

namespace Issue

/-- The setting that an issue is about; none for the settings as a whole. -/
def key? : Issue → Option SettingKey
  | notRecord _ => none
  | notText key _ => some key
  | unknownDialect => some .dialect
  | emptyOrigin _ => some .origin
  | notBoolean => some .allowMissing

/-- The path to the offending value. -/
def path (i : Issue) : List String := (i.key?.map SettingKey.name).toList

/-- What is wrong. -/
def message : Issue → String
  | notRecord received => "Invalid input: expected object, received " ++ received.name
  | notText _ received => "Invalid input: expected string, received " ++ received.name
  | unknownDialect => "Invalid option: expected one of \"json\"|\"conf\"|\"properties\""
  | emptyOrigin .text => "Too small: expected string to have >=1 characters"
  | emptyOrigin .list => "Too small: expected array to have >=1 items"
  | emptyOrigin .record => "Too small: expected unknown to be >=1"
  | notBoolean => "Invalid input"

/-- An issue in a list for people. -/
def pretty (i : Issue) : String :=
  match i.key? with
  | some key => "✖ " ++ i.message ++ "\n  → at " ++ key.name
  | none => "✖ " ++ i.message

/-- A list of issues for people. -/
def prettyAll (issues : List Issue) : String := String.intercalate "\n" (issues.map pretty)

end Issue

/-- Why settings are refused. -/
inductive Refusal where
  /-- Rules are broken. -/
  | issues (broken : List Issue)
  /-- The check failed. -/
  | failed (error : Value)

/-- The issues of a check that did not fail. -/
def Refusal.issuesOf {α : Type} : Except Refusal α → List Issue
  | .error (.issues broken) => broken
  | _ => []

/-- The truth value that a word stands for. -/
def booleanWord? (word : String) : Option Bool :=
  if word = "true" ∨ word = "1" then some true
  else if word = "false" ∨ word = "0" then some false
  else none

/-- The dialect under its key; an `undefined` one is missing. -/
def checkDialect : Value → Except Refusal (Option Dialect)
  | .undefined => .ok none
  | .text s =>
    match Dialect.ofName? (Text.lowerCase s) with
    | some d => .ok (some d)
    | none => .error (.issues [.unknownDialect])
  | v => .error (.issues [.notText .dialect v.kind])

/-- Whether a value that stands for a length is less than one, or no number. What is neither a
number nor a truth value is read from its text. -/
def isShortLength : Value → Except Value Bool
  | .undefined => .ok false
  | .number n => .ok (!n.isAtLeastOne)
  | .bool b => .ok (!b)
  | v => v.textOf.map fun s => !(Numeral.ofText s).isAtLeastOne

/-- The issue of a length, for what stands in place of an origin description. -/
def originLength : Value → Except Value (List Issue)
  | .list [] => .ok [.emptyOrigin .list]
  | .record members =>
    match Table.get? members "length" with
    | some length =>
      (isShortLength length).map fun short => if short then [.emptyOrigin .record] else []
    | none => .ok []
  | _ => .ok []

/-- The origin description under its key; an `undefined` one is missing. -/
def checkOrigin : Value → Except Refusal (Option String)
  | .undefined => .ok none
  | .text s => if s.isEmpty then .error (.issues [.emptyOrigin .text]) else .ok (some s)
  | v =>
    match originLength v with
    | .ok more => .error (.issues (.notText .origin v.kind :: more))
    | .error e => .error (.failed e)

/-- Whether missing sources are tolerated; an `undefined` value is missing. -/
def checkAllowMissing : Value → Except Refusal (Option Bool)
  | .undefined => .ok none
  | .bool b => .ok (some b)
  | .text s =>
    match booleanWord? (Text.lowerCase s) with
    | some b => .ok (some b)
    | none => .error (.issues [.notBoolean])
  | _ => .error (.issues [.notBoolean])

namespace Settings

/-- Three checks as one: all settings, or all issues in the order of the keys. Only the check of the
origin description can fail. -/
def combine (dialect : Except Refusal (Option Dialect)) (origin : Except Refusal (Option String))
    (allowMissing : Except Refusal (Option Bool)) : Except Refusal Settings :=
  match dialect, origin, allowMissing with
  | .ok d, .ok o, .ok a => .ok ⟨d, o, a⟩
  | _, .error (.failed e), _ => .error (.failed e)
  | d, o, a =>
    .error (.issues (Refusal.issuesOf d ++ Refusal.issuesOf o ++ Refusal.issuesOf a))

/-- The settings that a look-up gives, or their refusal. -/
def check (look : String → Value) : Except Refusal Settings :=
  combine (checkDialect (look SettingKey.dialect.name)) (checkOrigin (look SettingKey.origin.name))
    (checkAllowMissing (look SettingKey.allowMissing.name))

/-- The settings of a value. -/
def ofValue : Value → Except Refusal Settings
  | .record members => check fun key => Value.ofOption (Table.get? members key)
  | v =>
    if v.isError then check fun _ => .undefined
    else .error (.issues [.notRecord v.kind])

/-- The settings as a record; what is missing is left out. -/
def toRecord (s : Settings) : Table Value :=
  (s.dialect.map fun d => (SettingKey.dialect.name, Value.text d.name)).toList
    ++ (s.origin.map fun o => (SettingKey.origin.name, Value.text o)).toList
    ++ (s.allowMissing.map fun a => (SettingKey.allowMissing.name, Value.bool a)).toList

end Settings

end ConfigSource
