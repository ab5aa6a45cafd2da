import ConfigSource.BuiltinName
import ConfigSource.Decimal
import ConfigSource.Table

/-!
# Values and errors

A **value** is what a settings source gives for a key, what a document contains and what a log call
carries. Values are data – numbers, texts, lists, records – and **errors**: anything can be thrown,
and an error can stand anywhere a value can.

An error carries its **cause**, a value again; `undefined` there means that there is none. A
`ConfigSource.Value.configError` is an error of this library, with a code, a context and the instant
at which it was raised; every other error has a class name and a message only.

* `ConfigSource.Value`, `ConfigSource.ErrorHead`;
* `ConfigSource.Kind`, `ConfigSource.Kind.name`: the words by which values are told apart in
  messages;
* `ConfigSource.Value.headline`: class and message of an error in one line;
* `ConfigSource.Value.display`: the text of a value, if it has one.
-/

namespace ConfigSource

/-- What a configuration error says of itself, its context and cause apart. -/
structure ErrorHead where
  /-- The class of the error, `ConfigError` or a more special one. -/
  name : String
  /-- The stable code that programs test. -/
  code : String
  /-- The text for people. -/
  message : String
  /-- Whether the error can arise in a correct program. -/
  operational : Bool
  /-- When the error was made, in milliseconds since the epoch. -/
  raisedAt : Int
deriving DecidableEq, Inhabited

/-- A datum or an error. -/
inductive Value where
  /-- No value at all. -/
  | undefined
  /-- The value that stands for nothing. -/
  | null
  /-- A truth value. -/
  | bool (b : Bool)
  /-- A number. -/
  | number (n : Decimal)
  /-- A text. -/
  | text (s : String)
  /-- A list of values. -/
  | list (items : List Value)
  /-- A table of named values. -/
  | record (members : List (String × Value))
  /-- An error of this library. -/
  | configError (head : ErrorHead) (context : List (String × Value)) (cause : Value)
  /-- Any other error that stands for one fault. -/
  | plainError (name message : String) (cause : Value)
  /-- An error that stands for several. -/
  | aggregateError (message : String) (errors : List Value) (cause : Value)
deriving Inhabited

/-- The kinds of value that messages name. -/
inductive Kind where
  /-- No value. -/
  | undefined
  /-- Nothing. -/
  | null
  /-- A truth value. -/
  | boolean
  /-- A number. -/
  | number
  /-- A text. -/
  | text
  /-- A list. -/
  | list
  /-- A record. -/
  | record
  /-- An error, named by its class. -/
  | error (name : String)
deriving DecidableEq

/-- The word for a class in a message: its name, in the spelling that a table has for it. The table
has one for `nan` only, but it answers to the built-in names as well. -/
def classWord (name : String) : String :=
  match BuiltinName.ofName? name with
  | some b => b.text
  | none => if name = "nan" then "NaN" else name

/-- The name of a kind in a message. -/
def Kind.name : Kind → String
  | .undefined => "undefined"
  | .null => "null"
  | .boolean => "boolean"
  | .number => "number"
  | .text => "string"
  | .list => "array"
  | .record => "object"
  | .error name => classWord name

namespace Value

/-- The kind of a value. -/
def kind : Value → Kind
  | .undefined => .undefined
  | .null => .null
  | .bool _ => .boolean
  | .number _ => .number
  | .text _ => .text
  | .list _ => .list
  | .record _ => .record
  | .configError head _ _ => .error head.name
  | .plainError name _ _ => .error name
  | .aggregateError _ _ _ => .error "AggregateError"

/-- Whether there is no value. -/
def isUndefined : Value → Bool
  | .undefined => true
  | _ => false

/-- Whether the value counts as there: everything does, except `undefined`, `null`, `false`, zero
and the empty text. -/
def isTruthy : Value → Bool
  | .undefined => false
  | .null => false
  | .bool b => b
  | .number n => !n.isZero
  | .text s => !s.isEmpty
  | _ => true

/-- Whether the value is an error. -/
def isError : Value → Bool
  | .configError _ _ _ => true
  | .plainError _ _ _ => true
  | .aggregateError _ _ _ => true
  | _ => false

/-- The member of a record, `undefined` where there is none. -/
def member (v : Value) (key : String) : Value :=
  match v with
  | .record members => (Table.get? members key).getD .undefined
  | _ => .undefined

/-- A member, left out where it is `undefined`. -/
def memberOf (key : String) (v : Value) : Table Value :=
  if v.isUndefined then [] else [(key, v)]

/-- The text of an optional string, `null` where there is none. -/
def ofText? : Option String → Value
  | some s => .text s
  | none => .null

/-- The value or, where there is none, `undefined`. -/
def ofOption : Option Value → Value
  | some v => v
  | none => .undefined

/-- Class and message of an error; an empty one is left out with the colon. -/
def headline (name message : String) : String :=
  if name.isEmpty then message else if message.isEmpty then name else name ++ ": " ++ message

mutual

/-- The text of a value: items of a list are separated by commas, and what stands for nothing leaves
its place in a list empty. A record has no text if it holds a member where its text is made. -/
def display : Value → Option String
  | .undefined => some "undefined"
  | .null => some "null"
  | .bool b => some (if b then "true" else "false")
  | .number n => some n.render
  | .text s => some s
  | .list items => (displayItems items).map (String.intercalate ",")
  | .record members =>
    if (Table.get? members BuiltinName.asText.name).isSome then none else some "[object Object]"
  | .configError head _ _ => some (headline head.name head.message)
  | .plainError name message _ => some (headline name message)
  | .aggregateError message _ _ => some (headline "AggregateError" message)

/-- The texts of the items of a list, if all have one. -/
def displayItems : List Value → Option (List String)
  | [] => some []
  | .undefined :: rest => (displayItems rest).map ("" :: ·)
  | .null :: rest => (displayItems rest).map ("" :: ·)
  | v :: rest => do
    let first ← display v
    let others ← displayItems rest
    some (first :: others)

end

end Value

end ConfigSource
