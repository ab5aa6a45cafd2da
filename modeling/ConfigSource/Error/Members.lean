import ConfigSource.Calendar
import ConfigSource.Error

/-!
# What a value shows of itself

Where the members of a value are gone through, a record shows its members and a list its items under
their positions. A text shows its characters; one with a code above `0xFFFF` takes two places, and
neither can be shown by itself. An error of this library shows the fields it adds to what every
error has; cause, message and stack of an error are not gone through.

* `ConfigSource.ErrorHead.fields`: the fields that an error of this library adds;
* `ConfigSource.Value.shownMembers`: the members that a value shows, in reading order.
-/

namespace ConfigSource

namespace Value

/-- The text of an instant, or `null` if it has none. -/
def timeOrNull (t : Int) : Value := ofText? (Calendar.isoText? t)

end Value

/-- The fields that an error of this library adds to what every error has. -/
def ErrorHead.fields (head : ErrorHead) (context : Value) : Table Value :=
  [("name", .text head.name), ("code", .text head.code), ("context", context),
    ("isOperational", .bool head.operational), ("timestamp", Value.timeOrNull head.raisedAt)]

namespace Value

/-- Values under their positions. -/
def indexed (items : List Value) : Table Value :=
  items.zipIdx.map fun item => (Digits.text item.2, item.1)

/-- What the places of a character show. -/
def places (c : Char) : List Value :=
  if c.toNat < 0x10000 then [.text (String.singleton c)]
  else List.replicate 2 (.text (String.singleton (Char.ofNat 0xFFFD)))

/-- The members that a value shows. -/
def shownMembers : Value → Table Value
  | .record members => Table.ordered members
  | .list items => indexed items
  | .text s => indexed (s.toList.flatMap places)
  | .configError head context _ => head.fields (.record context)
  | _ => []

end Value

end ConfigSource
