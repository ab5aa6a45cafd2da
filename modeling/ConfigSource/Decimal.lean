import ConfigSource.Digits

/-!
# Decimal numbers

A number in a settings table or a document is a **decimal**: an integer mantissa over a power of
ten. `Decimal.ofScientific` brings it to its shortest form, so that two decimals are equal exactly
when they denote the same number.

A decimal is written **positionally** as long as its leading digit stands at most twenty places
before the point and at most six behind it, and otherwise with an **exponent**: `1e+21`, `2.5e-7`.

* `ConfigSource.Decimal`: mantissa and number of places;
* `ConfigSource.Decimal.ofScientific`: the shortest form of `m / 10 ^ places`;
* `ConfigSource.Decimal.ofPower`: the decimal `m * 10 ^ e`;
* `ConfigSource.Decimal.render`: the text, `-0.5` for minus one half;
* `ConfigSource.Decimal.floor`: the greatest whole number that is not greater.
-/

namespace ConfigSource

/-- The number `mantissa / 10 ^ places`. -/
structure Decimal where
  /-- All the digits, with the sign. -/
  mantissa : Int
  /-- How many of the digits stand after the point. -/
  places : Nat
deriving DecidableEq, Inhabited

namespace Decimal

/-- The decimal with the fewest places that denotes `m / 10 ^ places`. -/
def ofScientific (m : Int) : Nat → Decimal
  | 0 => ⟨m, 0⟩
  | places + 1 => if m % 10 = 0 then ofScientific (m / 10) places else ⟨m, places + 1⟩

/-- A whole number. -/
def ofInt (m : Int) : Decimal := ⟨m, 0⟩

/-- The number `m * 10 ^ e`. -/
def ofPower (m e : Int) : Decimal :=
  if e < 0 then ofScientific m (-e).toNat else ofInt (m * Nat.pow 10 e.toNat)

/-- Whether the number is zero. -/
def isZero (d : Decimal) : Bool := d.mantissa == 0

/-- Whether the number is one or more. -/
def isAtLeastOne (d : Decimal) : Bool := decide ((Nat.pow 10 d.places : Int) ≤ d.mantissa)

/-- The greatest whole number that is not greater. -/
def floor (d : Decimal) : Decimal := ofInt (d.mantissa.fdiv (Nat.pow 10 d.places))

/-! ### Text -/

/-- The sign of a text. -/
def sign (d : Decimal) : List Char := if d.mantissa < 0 then ['-'] else []

/-- The power of ten that the leading digit counts. -/
def magnitude (d : Decimal) : Int := (Digits.count d.mantissa.natAbs : Int) - 1 - d.places

/-- The positional text: at least one digit before the point, and the point only where digits
follow it. -/
def positional (d : Decimal) : List Char :=
  let digits := Digits.padded (d.places + 1) d.mantissa.natAbs
  let whole := digits.take (digits.length - d.places)
  let fraction := digits.drop (digits.length - d.places)
  d.sign ++ whole ++ if fraction.isEmpty then [] else '.' :: fraction

/-- The text with an exponent: one digit before the point, no zeros at the end, and a sign of the
exponent in any case. -/
def exponential (d : Decimal) : List Char :=
  let digits := (Digits.padded 1 d.mantissa.natAbs).reverse.dropWhile (· == '0') |>.reverse
  let fraction := digits.drop 1
  d.sign ++ digits.take 1 ++ (if fraction.isEmpty then [] else '.' :: fraction)
    ++ 'e' :: (if d.magnitude < 0 then '-' else '+') :: Digits.padded 1 d.magnitude.natAbs

/-- The text of a number. -/
def render (d : Decimal) : String :=
  String.ofList
    (if d.isZero ∨ (-6 ≤ d.magnitude ∧ d.magnitude ≤ 20) then d.positional else d.exponential)

end Decimal

end ConfigSource
