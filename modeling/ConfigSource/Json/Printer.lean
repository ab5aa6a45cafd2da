import ConfigSource.Value

/-!
# JSON text

How data is written as JSON. In a text a quotation mark, a backslash and the control characters are
**escaped**; everything else stands for itself. What is no datum has a form nevertheless:
`undefined` is written as nothing, and an error without its members.

* `ConfigSource.Json.escape`, `ConfigSource.Json.quote`: a text between quotation marks;
* `ConfigSource.Value.json`: the JSON text of a value.
-/

namespace ConfigSource

namespace Json

/-- A digit in base sixteen. -/
def hexDigit (n : Nat) : Char :=
  if n < 10 then Char.ofNat ('0'.toNat + n) else Char.ofNat ('a'.toNat + (n - 10))

/-- Whether a character cannot stand for itself between quotation marks. -/
def needsEscape (c : Char) : Bool := c = '"' ∨ c = '\\' ∨ c.toNat < 0x20

/-- A character between quotation marks. -/
def escape (c : Char) : List Char :=
  if c = '"' ∨ c = '\\' then ['\\', c]
  else if needsEscape c then ['\\', 'u', '0', '0', hexDigit (c.toNat / 16), hexDigit (c.toNat % 16)]
  else [c]

/-- The characters of a text between quotation marks. -/
def quoteChars (cs : List Char) : List Char := '"' :: cs.flatMap escape ++ ['"']

/-- A text between quotation marks. -/
def quote (s : String) : String := String.ofList (quoteChars s.toList)

/-- What begins a record. -/
def openRecord : String := "\x7b"

/-- What ends a record. -/
def closeRecord : String := "\x7d"

/-- Members, given by their texts, as a record. -/
def recordOf (members : List String) : String :=
  openRecord ++ String.intercalate "," members ++ closeRecord

end Json

namespace Value

mutual

/-- The JSON text of a value. -/
def json : Value → String
  | .undefined => "null"
  | .null => "null"
  | .bool b => if b then "true" else "false"
  | .number n => n.render
  | .text s => Json.quote s
  | .list items => "[" ++ String.intercalate "," (jsonItems items) ++ "]"
  | .record members => Json.recordOf (jsonMembers members)
  | .configError _ _ _ => Json.recordOf []
  | .plainError _ _ _ => Json.recordOf []
  | .aggregateError _ _ _ => Json.recordOf []

/-- The JSON texts of the items of a list. -/
def jsonItems : List Value → List String
  | [] => []
  | v :: rest => json v :: jsonItems rest

/-- The JSON texts of the members of a record. -/
def jsonMembers : List (String × Value) → List String
  | [] => []
  | (key, v) :: rest => (Json.quote key ++ ":" ++ json v) :: jsonMembers rest

end

end Value

end ConfigSource
