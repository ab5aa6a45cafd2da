import ConfigSource.Decimal.Nearest
import ConfigSource.Text.Blank

/-!
# Numbers in texts

A text denotes a **numeral**: a number, an infinity, or no number at all. Blanks around it count for
nothing, and a text of blanks denotes zero. A number is written with decimal digits, of which those
before or those after the point may be missing, with an optional sign and an optional exponent; or
with hexadecimal, octal or binary digits behind `0x`, `0o` or `0b`, then without a sign.

* `ConfigSource.Numeral`: what a text denotes;
* `ConfigSource.Numeral.Scan`, `ConfigSource.Numeral.scan?`: the parts of a decimal number;
* `ConfigSource.Numeral.ofText`: the numeral of a text;
* `ConfigSource.Numeral.text`, `ConfigSource.Numeral.floor`, `ConfigSource.Numeral.isAtLeastOne`:
  what is asked of numerals.
-/

namespace ConfigSource

/-- What a text denotes when a number is asked for. -/
inductive Numeral where
  /-- No number. -/
  | notNumber
  /-- A number beyond all that can be held. -/
  | infinite (negative : Bool)
  /-- A number. -/
  | finite (d : Decimal)
deriving DecidableEq

namespace Numeral

/-! ### Reading -/

/-- The parts of a decimal number without a sign, and the text behind it. -/
structure Scan where
  /-- The digits before the point. -/
  whole : List Char
  /-- Whether there is a point. -/
  pointed : Bool
  /-- The digits after the point. -/
  fraction : List Char
  /-- The exponent, zero where there is none. -/
  exponent : Int
  /-- What follows. -/
  rest : List Char

/-- A sign that may be missing, and the text behind it. -/
def takeSign : List Char → Bool × List Char
  | '-' :: rest => (true, rest)
  | '+' :: rest => (false, rest)
  | cs => (false, cs)

/-- An exponent and the text behind it; refused if its mark is there and its digits are not. -/
def takeExponent? : List Char → Option (Int × List Char)
  | [] => some (0, [])
  | c :: rest =>
    if c = 'e' ∨ c = 'E' then
      let signed := takeSign rest
      let digits := signed.2.takeWhile Char.isDigit
      if digits.isEmpty then none
      else
        let n : Int := Digits.value digits
        some (if signed.1 then -n else n, signed.2.dropWhile Char.isDigit)
    else some (0, c :: rest)

/-- The digits after a point, and the text behind them; nothing if there is no point. -/
def takeFraction? : List Char → Option (List Char × List Char)
  | '.' :: rest => some (rest.takeWhile Char.isDigit, rest.dropWhile Char.isDigit)
  | _ => none

/-- The parts of a decimal number that begins here. -/
def scan? (cs : List Char) : Option Scan :=
  let whole := cs.takeWhile Char.isDigit
  let behind := cs.dropWhile Char.isDigit
  let fraction := takeFraction? behind
  let split := fraction.getD ([], behind)
  (takeExponent? split.2).map fun exponent =>
    ⟨whole, fraction.isSome, split.1, exponent.1, exponent.2⟩

/-- The numeral for what can be held of a number. -/
def ofHeld (negative : Bool) : Option Decimal → Numeral
  | some d => .finite d
  | none => .infinite negative

/-- The numeral of the parts of a decimal number. -/
def Scan.numeral (s : Scan) (negative : Bool) : Numeral :=
  ofHeld negative
    (Decimal.held? negative (Digits.value (s.whole ++ s.fraction)) (s.exponent - s.fraction.length))

/-- The value of a digit in a base of at most sixteen. -/
def digit? (base : Nat) (c : Char) : Option Nat :=
  let n :=
    if c.isDigit then c.toNat - '0'.toNat
    else if 'a' ≤ c ∧ c ≤ 'f' then c.toNat - 'a'.toNat + 10
    else if 'A' ≤ c ∧ c ≤ 'F' then c.toNat - 'A'.toNat + 10
    else base
  if n < base then some n else none

/-- The numeral of digits in a base. -/
def ofBase (base : Nat) (cs : List Char) : Numeral :=
  match cs.mapM (digit? base) with
  | none => .notNumber
  | some [] => .notNumber
  | some digits =>
    ofHeld false (Decimal.held? false (digits.foldl (fun n d => base * n + d) 0) 0)

/-- The numeral of a text without sign and blanks. -/
def ofUnsigned (negative : Bool) (cs : List Char) : Numeral :=
  if cs = "Infinity".toList then .infinite negative
  else
    match scan? cs with
    | some s =>
      if s.rest = [] ∧ ¬ (s.whole = [] ∧ s.fraction = []) then s.numeral negative else .notNumber
    | none => .notNumber

/-- The numeral of a text without blanks around it. -/
def ofTrimmed : List Char → Numeral
  | [] => .finite (.ofInt 0)
  | '0' :: mark :: rest =>
    if mark = 'x' ∨ mark = 'X' then ofBase 16 rest
    else if mark = 'o' ∨ mark = 'O' then ofBase 8 rest
    else if mark = 'b' ∨ mark = 'B' then ofBase 2 rest
    else ofUnsigned false ('0' :: mark :: rest)
  | cs => ofUnsigned (takeSign cs).1 (takeSign cs).2

/-- The numeral of a text. -/
def ofText (s : String) : Numeral := ofTrimmed (Text.trimmed s.toList)

/-! ### Asking -/

/-- The text of a numeral. -/
def text : Numeral → String
  | notNumber => "NaN"
  | infinite negative => if negative then "-Infinity" else "Infinity"
  | finite d => d.render

/-- The greatest whole number that is not greater. -/
def floor : Numeral → Numeral
  | notNumber => .notNumber
  | infinite negative => .infinite negative
  | finite d => .finite d.floor

/-- Whether it is a number of one or more. -/
def isAtLeastOne : Numeral → Bool
  | notNumber => false
  | infinite negative => !negative
  | finite d => d.isAtLeastOne

end Numeral

end ConfigSource
