import ConfigSource.Json.Printer
import ConfigSource.Json.Reader

/-!
# Lines of a log

A **line** is the text of a record, put together from **pieces**. A piece is a member, or a text
that is copied as it is and need not be a member: it may hold several, or none, or close what
another one opened. So it is the line as a whole that is read, and the **entry** is the table that
is read from it. Of members with one key the last counts.

A line of members alone is not read: by convention its entry is the table of its members. Where
their values read back, that is what is read from the text of the line as well
(`ConfigSource.Log.Line.entry?_eq_read`).

* `ConfigSource.Log.Piece`, `ConfigSource.Log.Line`;
* `ConfigSource.Log.Line.text`: the text of a line;
* `ConfigSource.Log.Line.entry?`: its entry, if it can be read.
-/

namespace ConfigSource

namespace Log

/-- A part of a line. -/
inductive Piece where
  /-- A member. -/
  | member (key : String) (value : Value)
  /-- A text in the place of a member. -/
  | verbatim (text : String)
deriving Inhabited

namespace Piece

/-- The text of a piece. -/
def text : Piece → String
  | member key value => Json.quote key ++ ":" ++ value.json
  | verbatim text => text

/-- The member that a piece is. -/
def member? : Piece → Option (String × Value)
  | member key value => some (key, value)
  | verbatim _ => none

/-- Members as pieces. -/
def ofTable (members : Table Value) : List Piece := members.map fun m => .member m.1 m.2

end Piece

/-- One line of a log. -/
abbrev Line := List Piece

/-- What is read from a line. -/
abbrev Entry := Table Value

namespace Line

/-- The text of a line. -/
def text (line : Line) : String := Json.recordOf (line.map Piece.text)

/-- The entry of a line: the table of its members or, if not all of its pieces are members, what is
read from its text. -/
def entry? (line : Line) : Option Entry :=
  match line.mapM Piece.member? with
  | some members => some (Table.ofList members)
  | none =>
    match Json.read? line.text with
    | some (.record members) => some members
    | _ => none

end Line

end Log

end ConfigSource
