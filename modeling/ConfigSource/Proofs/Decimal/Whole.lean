import ConfigSource.Decimal.Nearest
import Mathlib.Data.Nat.Log
import Mathlib.Tactic.Ring

/-!
# Whole numbers are held as they are

A whole number that 53 binary digits can hold is kept as it is (`ConfigSource.Decimal.held?_whole`).

It is held with some of its binary digits behind the point, as many as make 53 in all
(`ConfigSource.Binary.exists_nearest_eq_whole`). The numbers that are read as it lie no farther away
than one half, so it is the only whole one among them (`ConfigSource.Binary.readsBack_whole`), and
the decimal with the fewest digits is found before any digit behind the point is tried
(`ConfigSource.Binary.shortest_whole`).
-/

namespace ConfigSource

theorem roundedQuotient_mul {den : Nat} (h : 0 < den) (n : Nat) :
    roundedQuotient (n * den) den = n := by
  simp [roundedQuotient, Nat.mul_div_cancel _ h, h]

theorem scaled_natCast (base num den e : Nat) :
    scaled base num den e = (num * base ^ e, den) := by
  simp [scaled]

theorem scaled_neg_natCast (base num den e : Nat) :
    scaled base num den (-e) = (num, den * base ^ e) := by
  simp [scaled]

namespace Binary

/-- The whole number `n`, with `k` binary digits behind the point. -/
def whole (n k : Nat) : Binary := ⟨n * 2 ^ k, -k⟩

variable {n k : Nat}

/-- **A whole number that fits is held as it is.** -/
theorem exists_nearest_eq_whole (hn : 0 < n) (h : n < 2 * leastFull) :
    ∃ k ≤ 52, nearest n 1 = whole n k := by
  have hlog : n.log2 < 53 := (Nat.log2_lt hn.ne').mpr h
  have hleast : 2 ^ n.log2 ≤ n := Nat.log2_self_le hn.ne'
  have hmost : n < 2 ^ (n.log2 + 1) := Nat.lt_log2_self
  obtain ⟨k, hk⟩ : ∃ k, n.log2 + k = 52 := ⟨52 - n.log2, by omega⟩
  have hguess : (n.log2 : Int) - Nat.log2 1 - 53 = -((k + 1 : Nat) : Int) := by
    rw [show Nat.log2 1 = 0 by decide]
    omega
  have hexponent : max leastExponent (-((k + 1 : Nat) : Int) + 1) = -(k : Int) := by
    rw [leastExponent]
    omega
  -- one binary digit more than fits is too many, and as many as fit are not
  have hfull : 2 * leastFull ≤ n * 2 ^ (k + 1) := calc
    2 * leastFull = 2 ^ n.log2 * 2 ^ (k + 1) := by
      rw [← pow_add, show n.log2 + (k + 1) = 53 by omega]
      rfl
    _ ≤ n * 2 ^ (k + 1) := Nat.mul_le_mul_right _ hleast
  have hbelow : n * 2 ^ k < 2 * leastFull := calc
    n * 2 ^ k < 2 ^ (n.log2 + 1) * 2 ^ k := Nat.mul_lt_mul_of_pos_right hmost (Nat.two_pow_pos k)
    _ = 2 * leastFull := by
      rw [← pow_add, show n.log2 + 1 + k = 53 by omega]
      rfl
  have hquotient : roundedQuotient (n * 2 ^ k) 1 = n * 2 ^ k := by
    simpa using roundedQuotient_mul Nat.one_pos (n * 2 ^ k)
  refine ⟨k, by omega, ?_⟩
  simp only [nearest, hguess, neg_neg, scaled_natCast, mul_one, if_pos hfull, hexponent, hquotient,
    if_neg hbelow.ne]
  rfl

/-- The interval of a whole number holds no other one. -/
theorem readsBack_whole (hn : 0 < n) (k digits e : Nat) :
    (whole n k).readsBack digits e = true ↔ digits * 10 ^ e = n := by
  have htwo : (2 - -(k : Int)).toNat = k + 2 := by omega
  have hzero : (-(k : Int) - 2).toNat = 0 := by omega
  have hneg : (-(e : Int)).toNat = 0 := by omega
  have hcompare (quarters : Nat) : compareQuarters digits e quarters (-k)
      = compare (4 * (digits * 10 ^ e * 2 ^ k)) quarters := by
    simp only [compareQuarters, htwo, hzero, hneg, Int.toNat_natCast, Nat.pow_eq, pow_zero, mul_one,
      pow_add]
    congr 1
    ring
  have hscale : digits * 10 ^ e = n ↔ digits * 10 ^ e * 2 ^ k = n * 2 ^ k :=
    (Nat.mul_left_inj (Nat.two_pow_pos k).ne').symm
  have hpos : 0 < n * 2 ^ k := Nat.mul_pos hn (Nat.two_pow_pos k)
  simp only [readsBack]
  generalize hgap : (if (whole n k).mantissa = leastFull ∧ leastExponent < (whole n k).exponent
    then 1 else 2) = gap
  have hnarrow : gap = 1 ∨ gap = 2 := by
    rw [← hgap]
    split
    · exact Or.inl rfl
    · exact Or.inr rfl
  -- in quarters, multiples of four that differ by no more than two are the same
  simp only [hscale, whole, hcompare, decide_eq_true_eq, Nat.compare_eq_gt, Nat.compare_eq_lt,
    Nat.compare_eq_eq]
  omega

theorem multiple?_whole_zero (hn : 0 < n) (k : Nat) :
    (whole n k).multiple? (0 : Nat) = some n := by
  have hscaled : scaled 10 (n * 2 ^ k) (2 ^ k) (-(0 : Nat)) = (n * 2 ^ k, 2 ^ k) := by
    simp [scaled]
  have hself : (whole n k).readsBack n (0 : Nat) = true :=
    (readsBack_whole hn k n 0).mpr (mul_one n)
  simp only [multiple?, whole, scaled_neg_natCast, one_mul, hscaled,
    roundedQuotient_mul (Nat.two_pow_pos k)]
  exact List.find?_cons_of_pos hself

theorem ofPower_of_multiple? (hn : 0 < n) {e digits : Nat}
    (h : (whole n k).multiple? e = some digits) : Decimal.ofPower digits e = .ofInt n := by
  have hback := List.find?_some h
  rw [readsBack_whole hn] at hback
  rw [Decimal.ofPower, if_neg (by omega), ← hback]
  simp

theorem ceiling_whole (hn : 0 < n) (k : Nat) : (whole n k).ceiling = Digits.count n := by
  have hle : 2 ^ k ≤ n * 2 ^ k := Nat.le_mul_of_pos_left _ hn
  simp only [ceiling, whole, scaled_neg_natCast, one_mul, if_pos hle,
    Nat.mul_div_cancel n (Nat.two_pow_pos k)]

/-- **The shortest decimal of a whole number is the number**, unless it has too many digits. -/
theorem shortest_whole (hn : 0 < n) (k : Nat) (hcount : Digits.count n ≤ sufficientDigits) :
    (whole n k).shortest = .ofInt n := by
  have hmantissa : (whole n k).mantissa ≠ 0 := (Nat.mul_pos hn (Nat.two_pow_pos k)).ne'
  have hpos : 0 < Digits.count n := Nat.length_toDigits_pos
  obtain ⟨later, hlater⟩ := Nat.exists_eq_add_of_le hcount
  rw [shortest, if_neg hmantissa, ceiling_whole hn, hlater, List.range_add]
  simp only [List.findSome?_append]
  -- the digits before the point are tried first, and the last of them ends the search
  generalize hfound : List.findSome? _ (List.range (Digits.count n)) = found
  cases found with
  | none =>
    have hlast := List.findSome?_eq_none_iff.mp hfound (Digits.count n - 1)
      (List.mem_range.mpr (by omega))
    rw [show (Digits.count n : Int) - 1 - ((Digits.count n - 1 : Nat) : Int) = (0 : Nat) by omega,
      multiple?_whole_zero hn] at hlast
    cases hlast
  | some d =>
    obtain ⟨j, hj, hd⟩ := List.exists_of_findSome?_eq_some hfound
    obtain ⟨_, hcast, rfl⟩ := Option.map_eq_some_iff.mp hd
    obtain ⟨digits, hdigits, hsame⟩ := Option.bind_eq_some_iff.mp hcast
    obtain rfl := Option.some.inj hsame
    rw [List.mem_range] at hj
    rw [show (Digits.count n : Int) - 1 - j = (Digits.count n - 1 - j : Nat) by omega]
      at hdigits ⊢
    exact ofPower_of_multiple? hn hdigits

/-- A number that fits has no more than sixteen decimal digits. -/
theorem count_le_of_lt (h : n < 2 * leastFull) : Digits.count n ≤ 16 :=
  (Nat.length_toDigits_le_iff (by decide) (by decide)).mpr (h.trans_le (by decide))

end Binary

/-- **A whole number that fits is kept as it is.** -/
theorem Decimal.held?_whole (negative : Bool) {n : Nat} (h : n < 2 * Binary.leastFull) :
    Decimal.held? negative n 0 = some (.ofInt (if negative then -n else n)) := by
  rcases Nat.eq_zero_or_pos n with rfl | hn
  · cases negative <;> rfl
  · obtain ⟨k, hk, hnearest⟩ := Binary.exists_nearest_eq_whole hn h
    have hcount := Binary.count_le_of_lt h
    have hshortest := Binary.shortest_whole hn k (hcount.trans (by decide))
    have hscaled : scaled 10 n 1 0 = (n, 1) := by simp [scaled]
    have hsmall : ¬(n = 0 ∨ (Digits.count n : Int) + 0 < -farthest) := by
      rw [farthest]
      omega
    have hgreat : ¬farthest < (Digits.count n : Int) + 0 := by
      rw [farthest]
      omega
    have hexponent : ¬Binary.greatestExponent < (Binary.whole n k).exponent := by
      simp only [Binary.greatestExponent, Binary.whole]
      omega
    rw [held?, if_neg hsmall, if_neg hgreat]
    simp only [hscaled, hnearest, if_neg hexponent, hshortest]
    cases negative <;> rfl

end ConfigSource
