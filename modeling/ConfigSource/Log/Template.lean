import ConfigSource.Decimal.Numeral

/-!
# Message templates

A text that is logged in place of details is a **template** for the message. Behind a percent sign a
letter says how the message is put in: as it is, as a number, as a whole number, or in quotation
marks. There is one message only, so the first sign with a letter uses it up, also if the letter is
none of these; every later one stands for itself. Two percent signs stand for one.

* `ConfigSource.Log.Insertion`: how the message is put in;
* `ConfigSource.Log.fill`: the template with the message.
-/

namespace ConfigSource

namespace Log

/-- How a message is put into a template. -/
inductive Insertion where
  /-- As it is. -/
  | plain
  /-- As the number that it denotes. -/
  | number
  /-- As the greatest whole number not above that one. -/
  | whole
  /-- In quotation marks. -/
  | quoted
deriving DecidableEq

namespace Insertion

/-- The insertion that a letter asks for. -/
def ofLetter? : Char → Option Insertion
  | 's' => some plain
  | 'd' => some number
  | 'f' => some number
  | 'i' => some whole
  | 'j' => some quoted
  | 'o' => some quoted
  | 'O' => some quoted
  | _ => none

/-- The message as it is put in. -/
def text (message : String) : Insertion → String
  | plain => message
  | number => (Numeral.ofText message).text
  | whole => (Numeral.ofText message).floor.text
  | quoted => "'" ++ message ++ "'"

end Insertion

/-- A template with its message; `used` says whether the message was used up before. -/
def fillFrom (message : String) (used : Bool) : List Char → List Char
  | [] => []
  | ['%'] => ['%']
  | '%' :: '%' :: rest => '%' :: fillFrom message used rest
  | '%' :: letter :: rest =>
    match if used then none else Insertion.ofLetter? letter with
    | some insertion => (insertion.text message).toList ++ fillFrom message true rest
    | none => '%' :: letter :: fillFrom message true rest
  | c :: rest => c :: fillFrom message used rest

/-- A template with its message. -/
def fill (template message : String) : String :=
  String.ofList (fillFrom message false template.toList)

end Log

end ConfigSource
