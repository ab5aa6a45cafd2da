import ConfigSource.Log.ErrorRecord
import ConfigSource.Log.JsonForm
import ConfigSource.Log.Line

/-!
# Serializers

A member is written through the **serializer** of its key, which is looked up by name. The key `err`
has one, which shows an error in full. Most other keys have none, and their values are written in
JSON form. But the built-in names are found among the serializers too, and what they do with a value
is not meant for a log: one gives the bare text of the value, one gives `false` for all of them, and
most refuse.

A **context** is written when it is bound, and its keys are copied into the line as they are. The
keys of **details** are quoted.

* `ConfigSource.Log.Site`: where a member stands;
* `ConfigSource.Log.Serialized`, `ConfigSource.Log.serialize`: what is written for a value;
* `ConfigSource.Log.Site.piece`: the piece of a line that a member becomes;
* `ConfigSource.Log.Site.pieces`: the pieces of a table.
-/

namespace ConfigSource

namespace Log

/-- Where a member stands. -/
inductive Site where
  /-- In a context that is bound to a logger. -/
  | context
  /-- In the details of a call. -/
  | details
deriving DecidableEq

/-- What is written for a value. -/
inductive Serialized where
  /-- A value. -/
  | value (v : Value)
  /-- A text that is copied as it is. -/
  | verbatim (text : String)
  /-- Nothing, and the member is left out. -/
  | nothing

/-- The key under which an error is shown in full. -/
def errorKey : String := "err"

/-- The text of what holds a value, refused if the value has none. -/
def wrappedText : Value → Except Value String
  | .null => .ok "[object Object]"
  | v => v.textOf

/-- What is refused by a name that expects an action for a value. -/
def expectsAction (name : BuiltinName) : Value :=
  .simpleError "TypeError" ("Object.prototype." ++ name.name ++ ": Expecting function")

/-- What a built-in name makes of a value. -/
def BuiltinName.serialize (site : Site) (v : Value) : BuiltinName → Except Value Serialized
  | .maker => (wrappedText v).map .verbatim
  | .asText => .ok (.verbatim "[object Undefined]")
  | .isFallbackOf => .ok (.value (.bool false))
  | .asValue => .error .withoutTable
  | .holdsKey => do
    let _ ← v.textOf
    .error .withoutTable
  | .showsKey => do
    let _ ← v.textOf
    .error .withoutTable
  | .lookupGetter => lookup
  | .lookupSetter => lookup
  | .defineGetter => .error (expectsAction .defineGetter)
  | .defineSetter => .error (expectsAction .defineSetter)
  | .asLocalText =>
    .error (.simpleError "TypeError" "Object.prototype.toLocaleString called on null or undefined")
  | .fallback => .error (.simpleError "TypeError" "serializers[key] is not a function")
where
  /-- A look-up finds nothing; a context then asks where there is no table. -/
  lookup : Except Value Serialized := do
    let _ ← v.textOf
    match site with
    | .context => .error .withoutTable
    | .details => .ok .nothing

/-- What is written for the value under `key`, at the instant `now`. -/
def serialize (style : CauseStyle) (now : Int) (site : Site) (key : String) (v : Value) :
    Except Value Serialized :=
  if v.isUndefined then .ok .nothing
  else
    match BuiltinName.ofName? key with
    | some name => BuiltinName.serialize site v name
    | none =>
      if key = errorKey then (v.errorRecord style).map fun shown => .value (shown.logged now)
      else .ok (.value (v.logged now))

namespace Site

/-- A key with a colon behind it, as it stands in a line. -/
def keyText (site : Site) (key : String) : String :=
  match site with
  | context => "\"" ++ key ++ "\":"
  | details => Json.quote key ++ ":"

/-- Whether a key stands in a line as it would in a text that is quoted. -/
def isPlain (site : Site) (key : String) : Bool :=
  match site with
  | context => !key.toList.any Json.needsEscape
  | details => true

/-- The piece for what is written under a key. -/
def pieceOf (site : Site) (key : String) : Serialized → List Piece
  | .value v =>
    if site.isPlain key then [.member key v] else [.verbatim (site.keyText key ++ v.json)]
  | .verbatim text => [.verbatim (site.keyText key ++ text)]
  | .nothing => []

/-- The piece of a member, if it is written at all. -/
def piece (site : Site) (style : CauseStyle) (now : Int) (key : String) (v : Value) :
    Except Value (List Piece) :=
  (serialize style now site key v).map (site.pieceOf key)

/-- The pieces of a table, up to the first that is refused. -/
def pieces (site : Site) (style : CauseStyle) (now : Int) :
    Table Value → Except Value (List Piece)
  | [] => .ok []
  | (key, v) :: rest => do
    let first ← site.piece style now key v
    let others ← pieces site style now rest
    .ok (first ++ others)

end Site

end Log

end ConfigSource
