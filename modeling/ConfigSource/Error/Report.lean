import ConfigSource.Calendar
import ConfigSource.Error

/-!
# Reports

A **report** is what is written of a thrown value: a list of **levels**, one for the value itself
and one for each cause below it. An error of this library reports its own code, context and
instant. Any other error has the code `unknown` and the instant of the report, and a value that is
no error is reported as such and ends the chain.

Of a stack only the **head** is reported, class and message; the frames below it are left out. Every
error has frames, so its stack is there and not the empty text, whatever its head says. The test
whether an error has a stack that counts as there therefore has no counterpart: a level of an error
shows a stack exactly where stacks are asked for.

* `ConfigSource.Report`, `ConfigSource.Report.Level`: the chain and its members;
* `ConfigSource.Value.report`: the report of a thrown value, refused if an instant has no text;
* `ConfigSource.Report.toValue`: the report as a record, each cause inside the level above it.
-/

namespace ConfigSource

/-- One level of a report. -/
structure Report.Level where
  /-- The class of the error. -/
  name : String
  /-- Its code. -/
  code : String
  /-- Its message. -/
  message : String
  /-- Its context. -/
  context : Table Value
  /-- Whether it can arise in a correct program. -/
  operational : Bool
  /-- The text of its instant. -/
  timestamp : String
  /-- The head of its stack, where the stack is asked for. -/
  stack : Option String

/-- A thrown value and its causes, level by level. -/
inductive Report where
  /-- A level without a cause. -/
  | last (level : Report.Level)
  /-- A level and what caused it. -/
  | causedBy (level : Report.Level) (cause : Report)

namespace Report

/-- The levels, from the thrown value down. -/
def levels : Report → List Level
  | .last level => [level]
  | .causedBy level cause => level :: cause.levels

/-- The code of everything that is not an error of this library. -/
def unknownCode : String := "unknown"

/-- The level of a value that is no error. -/
def Level.ofNonError (v : Value) (timestamp : String) : Level where
  name := "NonErrorThrown"
  code := unknownCode
  message := match v with
    | .text s => s
    | _ => "Unknown error"
  context := [("value", v)]
  operational := false
  timestamp := timestamp
  stack := none

/-- The level of an error that is not of this library. -/
def Level.ofForeign (name message : String) (timestamp : String) (withStack : Bool) : Level where
  name := name
  code := unknownCode
  message := message
  context := []
  operational := false
  timestamp := timestamp
  stack := if withStack then some (Value.stackHeader name message) else none

/-- The level of an error of this library. -/
def Level.ofConfigError (head : ErrorHead) (context : Table Value) (timestamp : String)
    (withStack : Bool) : Level where
  name := head.name
  code := head.code
  message := head.message
  context := context
  operational := head.operational
  timestamp := timestamp
  stack := if withStack then some (Value.stackHeader head.name head.message) else none

/-- The members that a level shows, its cause apart. -/
def Level.members (l : Level) : Table Value :=
  [("name", .text l.name), ("code", .text l.code), ("message", .text l.message),
    ("context", .record l.context), ("isOperational", .bool l.operational),
    ("timestamp", .text l.timestamp)]

/-- The stack, where there is one. -/
def Level.stackMember (l : Level) : Table Value :=
  match l.stack with
  | some s => [("stack", .text s)]
  | none => []

/-- The report as a record. -/
def toValue : Report → Value
  | .last level => .record (level.members ++ level.stackMember)
  | .causedBy level cause =>
    .record (level.members ++ ("cause", cause.toValue) :: level.stackMember)

end Report

namespace Value

/-- A level over the report of its cause; a cause that is `undefined` is none. -/
def reportOver (level : Report.Level) (cause : Value) (below : Except Value Report) :
    Except Value Report :=
  if cause.isUndefined then .ok (.last level) else below.map (.causedBy level)

/-- The text of an instant that a report needs. -/
def reportTime (t : Int) : Except Value String :=
  match Calendar.isoText? t with
  | some s => .ok s
  | none => .error invalidTime

/-- The report of a thrown value, made at the instant `now`. -/
def report (now : Int) (withStack : Bool) : Value → Except Value Report
  | .configError head context cause => do
    let time ← reportTime head.raisedAt
    reportOver (.ofConfigError head context time withStack) cause (report now withStack cause)
  | .plainError name message cause => do
    let time ← reportTime now
    reportOver (.ofForeign name message time withStack) cause (report now withStack cause)
  | .aggregateError message _ cause => do
    let time ← reportTime now
    reportOver (.ofForeign "AggregateError" message time withStack) cause
      (report now withStack cause)
  | v => do
    let time ← reportTime now
    .ok (.last (.ofNonError v time))

end Value

end ConfigSource
