import ConfigSource.Error.Report
import ConfigSource.Text.Order

/-!
# The form of a value in an entry

An entry holds data only. A value is **laid out** first: an error of this library becomes its report
and any other error an empty record. An error whose report is refused, because an instant has no
text, is left where it stands.

If nothing was refused the value is written in **plain form**: members of a record that are
`undefined` are left out, and in a list they become `null`. Otherwise the value is written in
**bounded form**, which goes five levels deep and takes a hundred items of a list or members of a
record, in the order of their keys. What lies beyond is replaced by a remark, so that a refused
error there does no harm; a value whose bounded form still holds one is replaced by a notice.

* `ConfigSource.Value.layOut`: the value with reports in place of errors;
* `ConfigSource.Value.plainForm`, `ConfigSource.Value.boundedForm`: the two forms;
* `ConfigSource.Value.logged`: the form that stands in an entry.
-/

namespace ConfigSource

namespace Value

/-! ### Laying out -/

/-- A level of a report, with its cause if there is one. -/
def levelRecord (name code message : String) (context : Value) (operational : Bool) (time : String)
    (cause : Value) : Value :=
  .record ([("name", .text name), ("code", .text code), ("message", .text message),
      ("context", context), ("isOperational", .bool operational), ("timestamp", .text time)]
    ++ if cause.isUndefined then [] else [("cause", cause)])

/-- The report of an error of this library, given its context and the report of its cause. -/
def layOutRaised (head : ErrorHead) (context : Table Value) (cause : Option Value) :
    Option Value := do
  let time ← Calendar.isoText? head.raisedAt
  let below ← cause
  some (levelRecord head.name head.code head.message (.record context) head.operational time below)

/-- The level of an error that is not of this library. -/
def layOutForeign (now : Int) (name message : String) (cause : Option Value) : Option Value := do
  let time ← Calendar.isoText? now
  let below ← cause
  some (levelRecord name Report.unknownCode message (.record []) false time below)

/-- The level of a cause that is no error. -/
def layOutNonError (now : Int) (message : String) (v : Value) : Option Value :=
  (Calendar.isoText? now).map fun time =>
    levelRecord "NonErrorThrown" Report.unknownCode message (.record [("value", v)]) false time
      .undefined

/-- What is reported as the message of a value that is no error and no text. -/
def unknownMessage : String := "Unknown error"

mutual

/-- The value with reports, made at the instant `now`, in place of errors. -/
def layOut (now : Int) : Value → Value
  | .list items => .list (layOutItems now items)
  | .record members => .record (layOutMembers now members)
  | .configError head context cause =>
    (layOutRaised head (layOutMembers now context) (layOutCause now cause)).getD
      (.configError head context cause)
  | .plainError _ _ _ => .record []
  | .aggregateError _ _ _ => .record []
  | v => v

/-- The report of a cause, `undefined` if there is none. -/
def layOutCause (now : Int) : Value → Option Value
  | .undefined => some .undefined
  | .configError head context cause =>
    layOutRaised head (layOutMembers now context) (layOutCause now cause)
  | .plainError name message cause => layOutForeign now name message (layOutCause now cause)
  | .aggregateError message _ cause =>
    layOutForeign now "AggregateError" message (layOutCause now cause)
  | .text s => layOutNonError now s (.text s)
  | .list items => layOutNonError now unknownMessage (.list (layOutItems now items))
  | .record members => layOutNonError now unknownMessage (.record (layOutMembers now members))
  | v => layOutNonError now unknownMessage v

/-- The items of a list, laid out. -/
def layOutItems (now : Int) : List Value → List Value
  | [] => []
  | v :: rest => layOut now v :: layOutItems now rest

/-- The members of a record, laid out. -/
def layOutMembers (now : Int) : List (String × Value) → List (String × Value)
  | [] => []
  | (key, v) :: rest => (key, layOut now v) :: layOutMembers now rest

end

/-! ### The plain form -/

/-- A value in a list, where `undefined` has no place. -/
def orNull (v : Value) : Value := if v.isUndefined then .null else v

mutual

/-- The plain form of a value that was laid out; nothing if an error is left in it. -/
def plainForm : Value → Option Value
  | .list items => (plainItems items).map .list
  | .record members => (plainMembers members).map .record
  | .configError _ _ _ => none
  | .plainError _ _ _ => none
  | .aggregateError _ _ _ => none
  | v => some v

/-- The forms of the items of a list. -/
def plainItems : List Value → Option (List Value)
  | [] => some []
  | v :: rest => do
    let first ← plainForm v
    let others ← plainItems rest
    some (first.orNull :: others)

/-- The forms of the members of a record. -/
def plainMembers : List (String × Value) → Option (List (String × Value))
  | [] => some []
  | (key, v) :: rest => do
    let first ← plainForm v
    let others ← plainMembers rest
    some (memberOf key first ++ others)

end

/-! ### The bounded form -/

/-- How many levels the bounded form goes down. -/
def formDepth : Nat := 5

/-- How many items or members the bounded form takes. -/
def formBreadth : Nat := 100

/-- The remark on `n` items that are left out. -/
def leftOut (n : Nat) : String :=
  Digits.text n ++ (if n = 1 then " item" else " items") ++ " not stringified"

/-- What the bounded form takes of the items of a list, given the forms of all of them; the remark
leaves out of account the one item that it stands for itself. -/
def takeItems (forms : List (Option Value)) : Option (List Value) := do
  let taken ← (forms.take formBreadth).mapM id
  let beyond := forms.length - formBreadth
  some (taken.map orNull
    ++ if 1 < beyond then [.text ("... " ++ leftOut (beyond - 1))] else [])

/-- What the bounded form takes of the members of a record, given the forms of all of them. -/
def takeMembers (forms : List (String × Option Value)) : Option (Table Value) := do
  let sorted := forms.mergeSort fun a b => Text.atMost a.1 b.1
  let taken ← (sorted.take formBreadth).mapM fun m => m.2.map fun v => memberOf m.1 v
  let beyond := forms.length - formBreadth
  some (taken.flatten ++ if 0 < beyond then [("...", .text (leftOut beyond))] else [])

mutual

/-- The bounded form of a value that was laid out, with so many levels to go; nothing if an error is
met. -/
def boundedForm (levels : Nat) : Value → Option Value
  | .list [] => some (.list [])
  | .list (v :: items) =>
    match levels with
    | 0 => some (.text "[Array]")
    | below + 1 => (takeItems (boundedForm below v :: boundedItems below items)).map .list
  | .record [] => some (.record [])
  | .record ((key, v) :: members) =>
    match levels with
    | 0 => some (.text "[Object]")
    | below + 1 =>
      (takeMembers ((key, boundedForm below v) :: boundedMembers below members)).map .record
  | .configError _ _ _ => none
  | .plainError _ _ _ => none
  | .aggregateError _ _ _ => none
  | v => some v

/-- The bounded forms of the items of a list. -/
def boundedItems (levels : Nat) : List Value → List (Option Value)
  | [] => []
  | v :: rest => boundedForm levels v :: boundedItems levels rest

/-- The bounded forms of the members of a record. -/
def boundedMembers (levels : Nat) : List (String × Value) → List (String × Option Value)
  | [] => []
  | (key, v) :: rest => (key, boundedForm levels v) :: boundedMembers levels rest

end

/-! ### The form in an entry -/

/-- What stands in an entry for a value whose form is refused. -/
def unserializable : Value :=
  .text "[unable to serialize, circular reference is too complex to analyze]"

/-- The form of a value in an entry written at the instant `now`. -/
def logged (now : Int) (v : Value) : Value :=
  let laidOut := layOut now v
  (laidOut.plainForm.or (laidOut.boundedForm formDepth)).getD unserializable

end Value

end ConfigSource
