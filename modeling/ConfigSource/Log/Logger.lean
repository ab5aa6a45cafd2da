import ConfigSource.Log.Level
import ConfigSource.Log.Request
import ConfigSource.Log.Serializer
import ConfigSource.Log.Template

/-!
# Loggers

A **logger** has a threshold and the contexts that were bound to it, from the root down, as the
pieces they became when they were bound. A child has one context more; the parent stays as it is.

A call writes a **line**: level, time, the contexts from the root down, the details of the call, the
message. A later member overrides an earlier one of the same key. What is `undefined` is not written
at all, so it overrides nothing. A call that the threshold does not admit looks at nothing.

Behind the time a line also says which process wrote it and on which machine, under `pid` and
`hostname`. The two depend on nothing that a call or a context says, and are left out of the lines
here.

* `ConfigSource.Log.Logger`, `ConfigSource.Log.Logger.child`;
* `ConfigSource.Log.contextPieces`, `ConfigSource.Log.detailPieces`: what contexts and details
  become;
* `ConfigSource.Log.Logger.write`: the lines that a call writes, one or none, or its refusal;
* `ConfigSource.Log.Logger.note`: the same for details that no serializer touches;
* `ConfigSource.Log.openDestination`, `ConfigSource.Log.openOver`: the root for a destination of its
  own, or over a logger that exists.
-/

namespace ConfigSource

namespace Log

/-- A logger. -/
inductive Logger where
  /-- A logger that writes nothing, and neither do its children. -/
  | null
  /-- A logger with a threshold, a way to show causes and the contexts bound to it. -/
  | bound (threshold : Threshold) (style : CauseStyle) (contexts : List Piece)
deriving Inhabited

/-! ### Contexts -/

/-- The keys of a bound context that configure a logger and are not written. -/
def reservedKeys : List String := ["level", "serializers", "formatters", "customLevels"]

/-- The members of a context that are written. -/
def bindings (context : Table Value) : Table Value :=
  context.restrict fun key => !reservedKeys.contains key

/-- Whether a value can be bound: anything but what is there and counts as nothing. -/
def isBindable (context : Value) : Bool := context.isUndefined || context.isTruthy

/-- Whether a context hides how it is asked for its keys. -/
def hidesKeys (context : Table Value) : Bool :=
  (context.get? BuiltinName.holdsKey.name).isSome

/-- There is nothing to bind. -/
def nothingToBind : Value := .simpleError "Error" "missing bindings for child Pino"

/-- A context cannot be asked for its keys. -/
def keysHidden : Value :=
  .simpleError "TypeError" "bindings.hasOwnProperty is not a function"

/-- The pieces of a context that is bound at the instant `now`, or its refusal. -/
def contextPieces (style : CauseStyle) (now : Int) (context : Value) :
    Except Value (List Piece) :=
  let members := context.shownMembers
  if !isBindable context then .error nothingToBind
  else if hidesKeys members then .error keysHidden
  else Site.context.pieces style now (bindings members)

/-! ### Details -/

/-- The details that a value stands for: the request that it is, the members that it shows, or an
error under its own key. -/
def detailsOf (details : Value) : Table Value :=
  if details.isError then [(errorKey, details)]
  else if isRequest details then [("req", requestRecord details)]
  else
    match details with
    | .text _ => []
    | v => v.shownMembers

/-- The message of a call: a text among the details is a template for it, and a truth value or a
number stands in its place. -/
def messageOf (message : String) : Value → Value
  | .text template => .text (fill template message)
  | .bool b => .bool b
  | .number n => .number n
  | _ => .text message

/-- The pieces of the details of a call, or their refusal. -/
def detailPieces (style : CauseStyle) (now : Int) (details : Value) :
    Except Value (List Piece) :=
  Site.details.pieces style now (detailsOf details)

/-! ### Lines -/

/-- The line of a call, without the members `pid` and `hostname`. -/
def line (now : Int) (level : Level) (contexts details : List Piece) (message : Value) : Line :=
  [.member "level" (.number (.ofInt level.severity)), .member "time" (.number (.ofInt now))]
    ++ contexts ++ details ++ [.member "msg" message]

namespace Logger

/-- The logger with more pieces bound to it. -/
def bind (l : Logger) (more : List Piece) : Logger :=
  match l with
  | null => null
  | bound threshold style contexts => bound threshold style (contexts ++ more)

/-- The logger with one context more, or the refusal of that context. -/
def child (l : Logger) (now : Int) (context : Value) : Except Value Logger :=
  match l with
  | null => .ok null
  | bound threshold style contexts =>
    (contextPieces style now context).map fun more => bound threshold style (contexts ++ more)

/-- What a call writes: its line, if the threshold admits the level. -/
def write (l : Logger) (now : Int) (level : Level) (message : String) (details : Value) :
    Except Value (List Line) :=
  match l with
  | null => .ok []
  | bound threshold style contexts =>
    if threshold.admits level then
      (detailPieces style now details).map fun pieces =>
        [line now level contexts pieces (messageOf message details)]
    else .ok []

/-- What is written of members that have no serializer. -/
def noted (now : Int) (members : Table Value) : List Piece :=
  Piece.ofTable (members.map fun m => (m.1, m.2.logged now))

/-- What a call writes whose details have no serializer. -/
def note (l : Logger) (now : Int) (level : Level) (message : String) (members : Table Value) :
    List Line :=
  match l with
  | null => []
  | bound threshold _ contexts =>
    if threshold.admits level then
      [line now level contexts (noted now members) (.text message)]
    else []

end Logger

/-! ### Roots -/

/-- The root with a threshold of this name. A name that only passes for one is refused after the
context is bound. -/
def openNamed (style : CauseStyle) (now : Int) (name : String) (context : Value) :
    Except Value Logger :=
  match Threshold.parse? name with
  | some threshold => (Logger.bound threshold style []).child now context
  | none =>
    if Threshold.isDeceptive name then do
      let _ ← contextPieces style now context
      .error (.simpleError "Error" Threshold.deceptiveMessage)
    else .error (.simpleError "Error" (Threshold.unknownMessage name))

/-- The root for a destination of its own. An empty name of a level is none. -/
def openDestination (now : Int) (level : Option String) (context : Value) : Except Value Logger :=
  match level with
  | none => (Logger.bound .default .nested []).child now context
  | some "" => (Logger.bound .default .nested []).child now context
  | some name => openNamed .nested now name context

/-- The root over a logger whose own level has this name; that level is the one that counts. -/
def openOver (now : Int) (baseLevel : Option String) (context : Value) : Except Value Logger :=
  openNamed .joined now (baseLevel.getD "info") context

end Log

end ConfigSource
