/-!
# Decimal digits

The digits of a natural number, padded with zeros on the left where a text has a fixed width, and
the number that digits denote.

* `ConfigSource.Digits.padded`: the digits of `n`, at least `width` of them;
* `ConfigSource.Digits.text`: its text;
* `ConfigSource.Digits.count`: how many digits `n` has;
* `ConfigSource.Digits.value`: the number that digits denote.
-/

namespace ConfigSource

namespace Digits

/-- The decimal digits of `n`, at least `width` of them. -/
def padded (width n : Nat) : List Char :=
  let digits := Nat.toDigits 10 n
  List.replicate (width - digits.length) '0' ++ digits

/-- The decimal text of `n`. -/
def text (n : Nat) : String := String.ofList (padded 1 n)

/-- The number of decimal digits of `n`; zero has one. -/
def count (n : Nat) : Nat := (Nat.toDigits 10 n).length

/-- The number that decimal digits denote, the most significant one first. -/
def value (digits : List Char) : Nat :=
  digits.foldl (fun n c => 10 * n + (c.toNat - '0'.toNat)) 0

/-! ### What padded digits say -/

/-- A number that fits has exactly as many digits as asked for. -/
theorem length_padded {width n : Nat} (hwidth : 0 < width) (h : n < Nat.pow 10 width) :
    (padded width n).length = width := by
  have hle := (Nat.length_toDigits_le_iff (b := 10) (by decide) hwidth).mpr h
  simp only [padded, List.length_append, List.length_replicate]
  omega

/-- All of them are digits. -/
theorem isDigit_of_mem_padded {width n : Nat} {c : Char} (h : c ∈ padded width n) :
    c.isDigit = true := by
  rcases List.mem_append.mp h with h | h
  · rw [List.eq_of_mem_replicate h]
    rfl
  · exact Nat.isDigit_of_mem_toDigits (by decide) (by decide) h

/-- The digits of a number that is not zero do not begin with a zero. -/
theorem exists_toDigits {n : Nat} (h : 0 < n) :
    ∃ c more, Nat.toDigits 10 n = c :: more ∧ c ≠ '0' := by
  induction n using Nat.strongRecOn with
  | ind n ih =>
    rw [Nat.toDigits_eq_if (by decide)]
    split
    · exact ⟨_, [], rfl, fun hzero => Nat.ne_of_gt h (Nat.digitChar_eq_zero.mp hzero)⟩
    · obtain ⟨c, more, hdigits, hc⟩ := ih (n / 10) (by omega) (by omega)
      exact ⟨c, _, by rw [hdigits, List.cons_append], hc⟩

/-- Nor is one put before them where no width is asked for. -/
theorem padded_one (n : Nat) : padded 1 n = Nat.toDigits 10 n := by
  rw [padded, Nat.sub_eq_zero_of_le Nat.length_toDigits_pos]
  rfl

/-- Zeros at the front do not count. -/
theorem value_replicate_append (k : Nat) (digits : List Char) :
    value (List.replicate k '0' ++ digits) = value digits := by
  induction k with
  | zero => rfl
  | succ k ih => exact ih

/-- **Padded digits denote the number that they were made from.** -/
theorem value_padded (width n : Nat) : value (padded width n) = n := by
  rw [padded, value_replicate_append]
  exact Nat.ofDigitChars_toDigits (by decide) (by decide)

/-- So they tell it from all others, whatever the widths. -/
theorem padded_inj {width width' n n' : Nat} (h : padded width n = padded width' n') : n = n' := by
  rw [← value_padded width n, h, value_padded]

end Digits

end ConfigSource
