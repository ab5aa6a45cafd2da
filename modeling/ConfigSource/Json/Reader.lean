import ConfigSource.Decimal.Numeral
import ConfigSource.Value

/-!
# Reading JSON

The value that a JSON text denotes, or nothing if the text is not JSON. A reader takes characters
from the front and leaves the rest. Numbers keep the precision with which numbers are held, and one
that is too great to be held is read as nothing. Of members with one key the last one counts.

An escape gives half a character where the character has a code above `0xFFFF`; two halves that
belong together make one character, and a half alone stands for the replacement character.

* `ConfigSource.Json.Reader`: taking something from the front of a text;
* `ConfigSource.Json.readText`, `ConfigSource.Json.readNumber`: texts and numbers;
* `ConfigSource.Json.readValue`: values, read in a number of steps;
* `ConfigSource.Json.read?`: the value of a whole text.

A step goes one level down or one item on. Every level and every item takes up a character of its
own, so a text is read in no more steps than it has characters.
-/

namespace ConfigSource

namespace Json

/-- Takes something from the front of a text and leaves the rest, or refuses. -/
abbrev Reader (α : Type) := List Char → Option (α × List Char)

/-- Whether a character may stand between the parts of a JSON text. -/
def isSpace (c : Char) : Bool := c = ' ' ∨ c = '\t' ∨ c = '\n' ∨ c = '\r'

/-- The text behind the space at its front. -/
def skipSpace (cs : List Char) : List Char := cs.dropWhile isSpace

/-! ### Texts -/

/-- The character that a single letter stands for behind a backslash. -/
def unescape? : Char → Option Char
  | '"' => some '"'
  | '\\' => some '\\'
  | '/' => some '/'
  | 'b' => some (Char.ofNat 0x08)
  | 'f' => some (Char.ofNat 0x0C)
  | 'n' => some '\n'
  | 'r' => some '\r'
  | 't' => some '\t'
  | _ => none

/-- The code of four digits in base sixteen. -/
def hexCode? (digits : List Char) : Option Nat :=
  (digits.mapM (Numeral.digit? 16)).map fun ns => ns.foldl (fun n d => 16 * n + d) 0

/-- The codes of a text up to its closing quotation mark. -/
def readCodes : Reader (List Nat)
  | [] => none
  | '"' :: rest => some ([], rest)
  | '\\' :: 'u' :: a :: b :: c :: d :: rest => do
    let code ← hexCode? [a, b, c, d]
    let later ← readCodes rest
    some (code :: later.1, later.2)
  | '\\' :: c :: rest => do
    let meant ← unescape? c
    let later ← readCodes rest
    some (meant.toNat :: later.1, later.2)
  | c :: rest =>
    if c.toNat < 0x20 ∨ c = '\\' then none
    else do
      let later ← readCodes rest
      some (c.toNat :: later.1, later.2)

/-- Whether a code is the first half of a character. -/
def isFirstHalf (code : Nat) : Bool := decide (0xD800 ≤ code ∧ code < 0xDC00)

/-- Whether a code is the second half of a character. -/
def isSecondHalf (code : Nat) : Bool := decide (0xDC00 ≤ code ∧ code < 0xE000)

/-- The character of a code that is no pair of halves. -/
def loneChar (code : Nat) : Char :=
  if isFirstHalf code ∨ isSecondHalf code then Char.ofNat 0xFFFD else Char.ofNat code

/-- The characters of codes. -/
def ofCodes : List Nat → List Char
  | [] => []
  | [code] => [loneChar code]
  | first :: second :: rest =>
    if isFirstHalf first ∧ isSecondHalf second then
      Char.ofNat (0x10000 + (first - 0xD800) * 0x400 + (second - 0xDC00)) :: ofCodes rest
    else loneChar first :: ofCodes (second :: rest)

/-- A text behind its opening quotation mark. -/
def readText : Reader String := fun cs =>
  (readCodes cs).map fun read => (String.ofList (ofCodes read.1), read.2)

/-! ### Numbers -/

/-- The value of a numeral; what is too great is nothing. -/
def ofNumeral : Numeral → Value
  | .finite d => .number d
  | _ => .null

/-- Whether the digits before a point are spelled as they must be: there is one, and the first is
zero only if it is the only one. -/
def isWhole (digits : List Char) : Bool :=
  !digits.isEmpty && (digits.head? != some '0' || digits.length == 1)

/-- A number: a minus sign or none, and digits on both sides of a point that is there. -/
def readNumber : Reader Value := fun cs =>
  let negative := cs.head? = some '-'
  let scanned := Numeral.scan? (if negative then cs.drop 1 else cs)
  scanned.bind fun s =>
    if isWhole s.whole && !(s.pointed && s.fraction.isEmpty) then
      some (ofNumeral (s.numeral negative), s.rest)
    else none

/-! ### Values -/

/-- The values that are written as words. -/
def words : List (List Char × Value) :=
  [("null".toList, .null), ("true".toList, .bool true), ("false".toList, .bool false)]

/-- A value that is written as a word. -/
def readWord : Reader Value := fun cs =>
  words.findSome? fun w => if w.1.isPrefixOf cs then some (w.2, cs.drop w.1.length) else none

/-- A key and the colon behind it. -/
def readKey : Reader String := fun cs =>
  match skipSpace cs with
  | '"' :: rest => do
    let key ← readText rest
    match skipSpace key.2 with
    | ':' :: rest => some (key.1, rest)
    | _ => none
  | _ => none

mutual

/-- A value, read in a number of steps. -/
def readValue : Nat → Reader Value
  | 0, _ => none
  | steps + 1, cs =>
    match skipSpace cs with
    | '"' :: rest => (readText rest).map fun read => (.text read.1, read.2)
    | '[' :: rest =>
      match skipSpace rest with
      | ']' :: rest => some (.list [], rest)
      | rest => (readItems steps rest).map fun read => (.list read.1, read.2)
    | '\x7b' :: rest =>
      match skipSpace rest with
      | '\x7d' :: rest => some (.record [], rest)
      | rest => (readMembers steps rest).map fun read => (.record (Table.ofList read.1), read.2)
    | rest => (readWord rest).or (readNumber rest)

/-- The items of a list, at least one, and the bracket behind them. -/
def readItems : Nat → Reader (List Value)
  | 0, _ => none
  | steps + 1, cs => do
    let first ← readValue steps cs
    match skipSpace first.2 with
    | ']' :: rest => some ([first.1], rest)
    | ',' :: rest => do
      let others ← readItems steps rest
      some (first.1 :: others.1, others.2)
    | _ => none

/-- The members of a record, at least one, and the brace behind them. -/
def readMembers : Nat → Reader (List (String × Value))
  | 0, _ => none
  | steps + 1, cs => do
    let key ← readKey cs
    let first ← readValue steps key.2
    match skipSpace first.2 with
    | '\x7d' :: rest => some ([(key.1, first.1)], rest)
    | ',' :: rest => do
      let others ← readMembers steps rest
      some ((key.1, first.1) :: others.1, others.2)
    | _ => none

end

/-- The value of a JSON text. -/
def read? (s : String) : Option Value :=
  let cs := s.toList
  match readValue (cs.length + 1) cs with
  | some (v, rest) => if skipSpace rest = [] then some v else none
  | none => none

end Json

end ConfigSource
