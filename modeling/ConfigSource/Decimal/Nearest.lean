import ConfigSource.Decimal

/-!
# Numbers of limited precision

A number is held with 53 binary digits. Of a number that is read, the nearest one that can be held
is kept, the even one of two that are equally near; and that one is written with the fewest decimal
digits from which it is read again, the nearest of these. So a text with more digits than can be
held is not given back as it was read: `0.1000000000000000055` becomes `0.1`.

The numbers that are read as one and the same number `x` are an interval around `x`. Its ends lie
halfway to the neighbours of `x`, and belong to it exactly when the mantissa of `x` is even. All
comparisons are made between natural numbers, so nothing is rounded on the way.

* `ConfigSource.Binary`, `ConfigSource.Binary.nearest`: a number that is held, and the one nearest
  to a quotient;
* `ConfigSource.Binary.readsBack`: the interval of a number that is held;
* `ConfigSource.Binary.shortest`: its decimal with the fewest digits;
* `ConfigSource.Decimal.held?`: the decimal that is kept for what was read.
-/

namespace ConfigSource

/-- The quotient of two numbers, rounded to the nearest whole number and in a tie to the even
one. -/
def roundedQuotient (num den : Nat) : Nat :=
  let below := num / den
  let twice := 2 * (num % den)
  if twice < den ∨ (twice = den ∧ below % 2 = 0) then below else below + 1

/-- The quotient `num / den * base ^ e`, as a pair of natural numbers. -/
def scaled (base : Nat) (num den : Nat) (e : Int) : Nat × Nat :=
  (num * base.pow e.toNat, den * base.pow (-e).toNat)

/-- The number `mantissa * 2 ^ exponent`. -/
structure Binary where
  /-- The binary digits, at most 53 of them. -/
  mantissa : Nat
  /-- The power of two. -/
  exponent : Int
deriving DecidableEq

namespace Binary

/-- The exponent of the least numbers. -/
def leastExponent : Int := -1074

/-- The exponent of the greatest numbers. -/
def greatestExponent : Int := 971

/-- The least mantissa of 53 binary digits. -/
def leastFull : Nat := 0x10000000000000

/-- The number that is held for a quotient, were there no greatest exponent. -/
def nearest (num den : Nat) : Binary :=
  let guess : Int := (num.log2 : Int) - den.log2 - 53
  let tried := scaled 2 num den (-guess)
  let exponent := max leastExponent (if 2 * leastFull * tried.2 ≤ tried.1 then guess + 1 else guess)
  let exact := scaled 2 num den (-exponent)
  let mantissa := roundedQuotient exact.1 exact.2
  if mantissa = 2 * leastFull then ⟨leastFull, exponent + 1⟩ else ⟨mantissa, exponent⟩

/-- How `digits * 10 ^ e` compares with `quarters * 2 ^ (q - 2)`. -/
def compareQuarters (digits : Nat) (e : Int) (quarters : Nat) (q : Int) : Ordering :=
  compare (digits * Nat.pow 10 e.toNat * Nat.pow 2 (2 - q).toNat)
    (quarters * Nat.pow 2 (q - 2).toNat * Nat.pow 10 (-e).toNat)

/-- Whether `x` is what is held for `digits * 10 ^ e`. Below a power of two the numbers lie twice as
close as above it. -/
def readsBack (x : Binary) (digits : Nat) (e : Int) : Bool :=
  let gap := if x.mantissa = leastFull ∧ leastExponent < x.exponent then 1 else 2
  let low := compareQuarters digits e (4 * x.mantissa - gap) x.exponent
  let high := compareQuarters digits e (4 * x.mantissa + 2) x.exponent
  let closed := x.mantissa % 2 = 0
  (low = .gt ∨ (closed ∧ low = .eq)) ∧ (high = .lt ∨ (closed ∧ high = .eq))

/-- The multiple of `10 ^ e` from which `x` is read, the nearest one if there are two. -/
def multiple? (x : Binary) (e : Int) : Option Nat :=
  let whole := scaled 2 x.mantissa 1 x.exponent
  let exact := scaled 10 whole.1 whole.2 (-e)
  let below := exact.1 / exact.2
  let near := roundedQuotient exact.1 exact.2
  [near, if near = below then below + 1 else below].find? fun digits => x.readsBack digits e

/-- The least power of ten above `x`, which is not zero. -/
def ceiling (x : Binary) : Int :=
  let whole := scaled 2 x.mantissa 1 x.exponent
  if whole.2 ≤ whole.1 then Digits.count (whole.1 / whole.2)
  else 1 - (Digits.count (whole.2 / whole.1) : Int)

/-- The decimal digits that always suffice to tell a number from its neighbours. -/
def sufficientDigits : Nat := 17

/-- The number `x` itself as a decimal. -/
def exactDecimal (x : Binary) : Decimal :=
  if x.exponent < 0 then
    .ofScientific (x.mantissa * Nat.pow 5 (-x.exponent).toNat) (-x.exponent).toNat
  else .ofInt (x.mantissa * Nat.pow 2 x.exponent.toNat)

/-- The decimal with the fewest digits from which `x` is read. -/
def shortest (x : Binary) : Decimal :=
  if x.mantissa = 0 then .ofInt 0
  else
    let top := x.ceiling
    let found := (List.range sufficientDigits).findSome? fun (n : Nat) =>
      (x.multiple? (top - 1 - n)).map fun digits => Decimal.ofPower digits (top - 1 - n)
    found.getD x.exactDecimal

end Binary

/-- The decimal with the other sign. -/
def Decimal.negated (d : Decimal) : Decimal := { d with mantissa := -d.mantissa }

/-- How far the leading digit may lie from the point before a number is beyond what can be held. -/
def Decimal.farthest : Int := 330

/-- What is kept for `digits * 10 ^ e`; nothing if the number is too great to be held. -/
def Decimal.held? (negative : Bool) (digits : Nat) (e : Int) : Option Decimal :=
  let size := (Digits.count digits : Int) + e
  if digits = 0 ∨ size < -Decimal.farthest then some (.ofInt 0)
  else if Decimal.farthest < size then none
  else
    let exact := scaled 10 digits 1 e
    let x := Binary.nearest exact.1 exact.2
    if Binary.greatestExponent < x.exponent then none
    else some (if negative then x.shortest.negated else x.shortest)

end ConfigSource
