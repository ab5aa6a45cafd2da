import ConfigSource.Error.Members

/-!
# The record of an error

Under the key `err` an entry shows an error in full. A value is **error-like** if it is an error, or
a record whose `message` is a text; it is shown by class, message and stack, with the errors it
stands for, and then with every member of its own that is not shown yet. A member that is
`undefined` has its place in the record and counts as not shown yet.

What caused an error is shown in one of two ways. If causes are **nested**, an error-like cause is a
member of the record, shown in the same way. If they are **joined**, the messages from the error
down its causes make one text, and so do the stacks; the stack of an error ends with its frames,
behind which nothing is seen.

While a value is shown it is marked, so that it is not shown inside itself. The context of an error
of this library cannot be marked: where it is error-like the record is refused.

* `ConfigSource.Value.isErrorLike`;
* `ConfigSource.CauseStyle`: how causes are shown;
* `ConfigSource.Value.messageChain`, `ConfigSource.Value.stackChain`: what is joined;
* `ConfigSource.Value.errorRecord`: the record of an error-like value, every other value unchanged.
-/

namespace ConfigSource

/-- How the causes of an error are shown. -/
inductive CauseStyle where
  /-- In a member of the record. -/
  | nested
  /-- Joined to the message and to the stack. -/
  | joined
deriving DecidableEq, Inhabited

namespace Value

/-- Whether the value is shown as an error. -/
def isErrorLike : Value → Bool
  | .configError _ _ _ => true
  | .plainError _ _ _ => true
  | .aggregateError _ _ _ => true
  | .record members =>
    match Table.get? members "message" with
    | some (.text _) => true
    | _ => false
  | _ => false

/-- The class of a record that is shown as an error. -/
def recordType (members : Table Value) : Value :=
  match Table.get? members BuiltinName.maker.name with
  | some _ => ofOption (Table.get? members "name")
  | none => .text "Object"

/-- The keys that every record of an error holds unseen, so that no member is shown under them. -/
def hiddenKeys : List String := "raw" :: BuiltinName.all.map BuiltinName.name

/-- A frozen table is to be marked. -/
def markRefused : Value :=
  simpleError "TypeError" "Cannot add property Symbol(circular-ref-tag), object is not extensible"

/-! ### Joining -/

mutual

/-- The messages of an error-like value, from its own down its causes. -/
def messageChain : Value → List String
  | .configError head _ cause => head.message :: messageChain cause
  | .plainError _ message cause => message :: messageChain cause
  | .aggregateError message _ cause => message :: messageChain cause
  | .record members =>
    match Table.get? members "message" with
    | some (.text message) => message :: messagesOfCause members
    | _ => []
  | _ => []

/-- The messages of the cause that a record names. -/
def messagesOfCause : List (String × Value) → List String
  | [] => []
  | (key, v) :: rest => if key = "cause" then messageChain v else messagesOfCause rest

end

/-- The stack that a record names, the empty text in place of one that counts as nothing. -/
def stackOfRecord (members : Table Value) : Value :=
  match Table.get? members "stack" with
  | some stack => if stack.isTruthy then stack else .text ""
  | none => .text ""

mutual

/-- The stacks of an error-like value, from its own down its causes to the first one with frames. -/
def stackChain : Value → List Value
  | .configError head _ _ => [.text (stackHeader head.name head.message)]
  | .plainError name message _ => [.text (stackHeader name message)]
  | .aggregateError message _ _ => [.text (stackHeader "AggregateError" message)]
  | .record members =>
    match Table.get? members "message" with
    | some (.text _) => stackOfRecord members :: stacksOfCause members
    | _ => []
  | _ => []

/-- The stacks of the cause that a record names. -/
def stacksOfCause : List (String × Value) → List Value
  | [] => []
  | (key, v) :: rest => if key = "cause" then stackChain v else stacksOfCause rest

end

/-- Stacks as one. A single one stays as it is; of several all must have a text. -/
def joinStacks : List Value → Except Value Value
  | [] => .ok .undefined
  | [stack] => .ok stack
  | several => do
    let texts ← several.mapM textOf
    .ok (.text (String.intercalate "\ncaused by: " texts))

/-! ### The record -/

/-- The members that the record of an error begins with: class, message and stack. Where causes are
joined, message and stack are those of the value `whole`. -/
def errorHead (style : CauseStyle) (whole type message stack : Value) :
    Except Value (Table Value) :=
  match style with
  | .nested =>
    .ok [("type", type), ("message", message), ("stack", stack)]
  | .joined => do
    let joined ← joinStacks (stackChain whole)
    .ok [("type", type), ("message", .text (String.intercalate ": " (messageChain whole))),
      ("stack", joined)]

/-- The members that the record of an error that was raised begins with. -/
def raisedHead (style : CauseStyle) (whole : Value) (name message : String) :
    Except Value (Table Value) :=
  errorHead style whole (.text name) (.text message) (.text (stackHeader name message))

/-- Whether a record of an error has something to show under a key. -/
def isShownUnder (shown : Table Value) (key : String) : Bool :=
  hiddenKeys.contains key || ((shown.get? key).any fun v => !v.isUndefined)

/-- Adds the members that are not there yet, in the form in which they are shown; what is not added
is not shown and so not refused. -/
def addMissing (shown : Table Value) :
    List (String × Except Value Value) → Except Value (Table Value)
  | [] => .ok shown
  | (key, form) :: rest =>
    if isShownUnder shown key then addMissing shown rest
    else do
      let v ← form
      addMissing (shown.set key v) rest

/-- The fields of an error of this library, refused if its context is to be shown as an error. -/
def fieldsOf (head : ErrorHead) (context : Table Value) : Except Value (Table Value) :=
  if isErrorLike (.record context) then .error markRefused
  else .ok (head.fields (.record context))

/-- The member for the cause that a record names, where it is nested and error-like, from the forms
of all members. -/
def causeOfForms (style : CauseStyle) (cause : Option Value)
    (forms : List (String × Except Value Value)) : Except Value (Table Value) :=
  match style, cause, Table.get? forms "cause" with
  | .nested, some v, some form =>
    if isErrorLike v then form.map fun shown => [("cause", shown)] else .ok []
  | _, _, _ => .ok []

mutual

/-- The record of an error-like value; every other value stays as it is. -/
def errorRecord (style : CauseStyle) : Value → Except Value Value
  | .configError head context cause => do
    let first ← raisedHead style (.configError head context cause) head.name head.message
    let below ← causeMember style cause
    let fields ← fieldsOf head context
    .ok (.record (first ++ below ++ fields))
  | .plainError name message cause => do
    let first ← raisedHead style (.plainError name message cause) name message
    let below ← causeMember style cause
    .ok (.record (first ++ below))
  | .aggregateError message errors cause => do
    let first ← raisedHead style (.aggregateError message errors cause) "AggregateError" message
    let parts ← errorRecords style errors
    let below ← causeMember style cause
    .ok (.record (first ++ ("aggregateErrors", .list parts) :: below))
  | .record members =>
    if isErrorLike (.record members) then do
      let raw (key : String) : Value := ofOption (Table.get? members key)
      let first ← errorHead style (.record members) (recordType members) (raw "message")
        (raw "stack")
      let parts ← aggregateMember style members
      let forms := errorMembers style members
      let below ← causeOfForms style (Table.get? members "cause") forms
      let shown ← addMissing (first ++ parts ++ below) (Table.ordered forms)
      .ok (.record shown)
    else .ok (.record members)
  | v => .ok v

/-- The cause of an error, where it is nested, shown only if it is error-like. -/
def causeMember (style : CauseStyle) (cause : Value) : Except Value (Table Value) :=
  match style with
  | .nested =>
    if isErrorLike cause then (errorRecord style cause).map fun v => [("cause", v)] else .ok []
  | .joined => .ok []

/-- The records of a list of values. -/
def errorRecords (style : CauseStyle) : List Value → Except Value (List Value)
  | [] => .ok []
  | v :: rest => do
    let first ← errorRecord style v
    let others ← errorRecords style rest
    .ok (first :: others)

/-- The members of a record, each error-like one shown as an error. A cause that is joined is no
member any more. -/
def errorMembers (style : CauseStyle) :
    List (String × Value) → List (String × Except Value Value)
  | [] => []
  | (key, v) :: rest =>
    if style = .joined ∧ key = "cause" ∧ isErrorLike v then errorMembers style rest
    else (key, errorRecord style v) :: errorMembers style rest

/-- The errors that a record lists, each shown as an error. -/
def aggregateMember (style : CauseStyle) : List (String × Value) → Except Value (Table Value)
  | [] => .ok []
  | (key, v) :: rest =>
    match v with
    | .list items =>
      if key = "errors" then
        (errorRecords style items).map fun parts => [("aggregateErrors", .list parts)]
      else aggregateMember style rest
    | _ => aggregateMember style rest

end

end Value

end ConfigSource
