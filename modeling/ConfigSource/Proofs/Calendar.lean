import ConfigSource.Calendar
import Mathlib.Tactic.IntervalCases

/-!
# The calendar, day by day

The date of a day is found by division. What it should be is said by counting: the day of the epoch
is 1 January 1970, and from one day to the next the date goes on as calendars do, at the ends of
months and years and with a leap day where there is one (`ConfigSource.Calendar.Date.ofDay_zero`,
`ConfigSource.Calendar.Date.ofDay_succ`).

The two are compared in years that begin in March. There a day is a year and the days that went by
in it, in one way only (`ConfigSource.Calendar.exists_fromMarch`,
`ConfigSource.Calendar.fromMarch_unique`), and the months have their places in every year
(`ConfigSource.Calendar.monthStart`), since the leap day comes last.

It follows that no two days have the same date, and that **the text of an instant is the text of no
other** (`ConfigSource.Calendar.isoText?_inj`). The parts of a text have a fixed width from its end
up to the year; and a year with a sign is never mistaken for one without.
-/

namespace ConfigSource

namespace Calendar

/-! ### Going on by one day -/

/-- Whether a year has a leap day. -/
def IsLeap (year : Int) : Prop := year % 4 = 0 ∧ (year % 100 ≠ 0 ∨ year % 400 = 0)

instance (year : Int) : Decidable (IsLeap year) := inferInstanceAs (Decidable (_ ∧ _))

/-- The days of a month. -/
def monthLength (year : Int) (month : Nat) : Nat :=
  if month = 2 then if IsLeap year then 29 else 28
  else if month ∈ [4, 6, 9, 11] then 30 else 31

/-- The date of the next day. -/
def Date.next (d : Date) : Date :=
  if d.day < monthLength d.year d.month then { d with day := d.day + 1 }
  else if d.month < 12 then { d with month := d.month + 1, day := 1 }
  else ⟨d.year + 1, 1, 1⟩

/-! ### Years that begin in March -/

/-- The day of 1 March of a year. -/
def marchDay (year : Int) : Int := 365 * year + year / 4 - year / 100 + year / 400 - daysToEpoch

/-- The days from 1 March of a year to the next one. -/
def lengthFromMarch (year : Int) : Nat := if IsLeap (year + 1) then 366 else 365

theorem lengthFromMarch_cases (year : Int) :
    IsLeap (year + 1) ∧ lengthFromMarch year = 366 ∨
      ¬IsLeap (year + 1) ∧ lengthFromMarch year = 365 := by
  unfold lengthFromMarch
  split
  · next h => exact Or.inl ⟨h, rfl⟩
  · next h => exact Or.inr ⟨h, rfl⟩

theorem lengthFromMarch_pos (year : Int) : 0 < lengthFromMarch year := by
  have hlength := lengthFromMarch_cases year
  omega

theorem marchDay_succ (year : Int) :
    marchDay (year + 1) = marchDay year + lengthFromMarch year := by
  have hlength := lengthFromMarch_cases year
  unfold IsLeap at hlength
  unfold marchDay
  omega

theorem marchDay_mono {year year' : Int} (h : year ≤ year') : marchDay year ≤ marchDay year' := by
  unfold marchDay
  omega

/-- **A day lies in one year only**, and at one place of it. -/
theorem fromMarch_unique {year year' : Int} {k k' : Nat} (hk : k < lengthFromMarch year)
    (hk' : k' < lengthFromMarch year') (h : marchDay year + k = marchDay year' + k') :
    year = year' ∧ k = k' := by
  have hsucc := marchDay_succ year
  have hsucc' := marchDay_succ year'
  rcases Int.lt_trichotomy year year' with hlt | rfl | hlt
  · have hmono := marchDay_mono (show year + 1 ≤ year' by omega)
    omega
  · omega
  · have hmono := marchDay_mono (show year' + 1 ≤ year by omega)
    omega

/-! ### Eras -/

/-- The parts of a day of an era: centuries, fours of years, years, and days. Only the last year of
four can have a day more, and only the last four of the last century keep it. -/
theorem exists_parts {d : Nat} (h : d < 146097) : ∃ c u v k, c < 4 ∧ u < 25 ∧ v < 4 ∧
    (k < 365 ∨ k = 365 ∧ v = 3 ∧ (u < 24 ∨ c = 3)) ∧ d = 36524 * c + 1461 * u + 365 * v + k := by
  obtain ⟨c, hc⟩ : ∃ c, min (d / 36524) 3 = c := ⟨_, rfl⟩
  obtain ⟨r, hr⟩ : ∃ r, d - 36524 * c = r := ⟨_, rfl⟩
  obtain ⟨v, hv⟩ : ∃ v, min (r % 1461 / 365) 3 = v := ⟨_, rfl⟩
  refine ⟨c, r / 1461, v, r % 1461 - 365 * v, ?_⟩
  omega

/-- Fours of years and centuries are read off a year. -/
theorem year_div {c u v : Nat} (hu : u < 25) (hv : v < 4) :
    (100 * c + 4 * u + v) / 4 = 25 * c + u ∧ (100 * c + 4 * u + v) / 100 = c := by
  omega

/-- **The divisions find the year and the day in it.** -/
theorem yearOfEra_eq {c u v k : Nat} (hc : c < 4) (hu : u < 25) (hv : v < 4)
    (hk : k < 365 ∨ k = 365 ∧ v = 3 ∧ (u < 24 ∨ c = 3)) :
    yearOfEra (36524 * c + 1461 * u + 365 * v + k) = (100 * c + 4 * u + v, k) := by
  have hcentury : (36524 * c + 1461 * u + 365 * v + k) / 36524
      = c + (36524 * c + 1461 * u + 365 * v + k) / 146096 := by
    by_cases hlast : 36524 ≤ 1461 * u + 365 * v + k
    -- the last day of the era is one too many for its century
    · obtain rfl : c = 3 := by omega
      omega
    · omega
  generalize hd : 36524 * c + 1461 * u + 365 * v + k = d at *
  obtain ⟨h4, h100⟩ := year_div (c := c) hu hv
  -- of every 1460 days one is left out, and of the last year of four the last day at most
  have hpast : (24 * c + u + 365 * v + k) / 1460
      = if 1460 ≤ 24 * c + u + 365 * v + k then 1 else 0 := by
    split <;> omega
  have h1460 : d / 1460 = 25 * c + u + (24 * c + u + 365 * v + k) / 1460 := by omega
  have hyear : (d - d / 1460 + d / 36524 - d / 146096) / 365 = 100 * c + 4 * u + v := by
    rw [hcentury, h1460, hpast]
    split <;> omega
  simp only [yearOfEra, hyear, Prod.mk.injEq, true_and]
  omega

theorem yearOfEra_spec {d : Nat} (h : d < 146097) :
    (yearOfEra d).1 < 400 ∧
    d = 365 * (yearOfEra d).1 + (yearOfEra d).1 / 4 - (yearOfEra d).1 / 100 + (yearOfEra d).2 ∧
    (yearOfEra d).2 < lengthFromMarch (yearOfEra d).1 := by
  obtain ⟨c, u, v, k, hc, hu, hv, hk, rfl⟩ := exists_parts h
  obtain ⟨h4, h100⟩ := year_div (c := c) hu hv
  rw [yearOfEra_eq hc hu hv hk]
  have hlength := lengthFromMarch_cases (100 * c + 4 * u + v : Nat)
  unfold IsLeap at hlength
  refine ⟨?_, ?_, ?_⟩ <;> dsimp only <;> omega

/-! ### Months -/

/-- The date `k` days after 1 March of a year. -/
def dateFromMarch (year : Int) (k : Nat) : Date :=
  let fromMarch := (5 * k + 2) / 153
  let month := if fromMarch < 10 then fromMarch + 3 else fromMarch - 9
  { year := if month ≤ 2 then year + 1 else year
    month := month
    day := k - (153 * fromMarch + 2) / 5 + 1 }

/-- **Every day lies in a year**, and the place in that year gives its date. -/
theorem exists_fromMarch (n : Int) : ∃ year k, k < lengthFromMarch year ∧
    n = marchDay year + k ∧ Date.ofDay n = dateFromMarch year k := by
  have hpos : (0 : Int) ≤ daysPerEra := by decide
  obtain ⟨era, hera⟩ : ∃ era, (n + daysToEpoch).fdiv daysPerEra = era := ⟨_, rfl⟩
  obtain ⟨d, hd⟩ : ∃ d, ((n + daysToEpoch).fmod daysPerEra).toNat = d := ⟨_, rfl⟩
  have hsplit : n + daysToEpoch = era * 146097 + d ∧ d < 146097 := by
    rw [← hera, ← hd, Int.fdiv_eq_ediv_of_nonneg _ hpos, Int.fmod_eq_emod_of_nonneg _ hpos]
    unfold daysPerEra
    omega
  obtain ⟨hy, hdays, hk⟩ := yearOfEra_spec hsplit.2
  refine ⟨era * 400 + (yearOfEra d).1, (yearOfEra d).2, ?_, ?_, ?_⟩
  · have hlength := lengthFromMarch_cases (yearOfEra d).1
    have hlength' := lengthFromMarch_cases (era * 400 + (yearOfEra d).1)
    unfold IsLeap at hlength hlength'
    omega
  · have h4 : (era * 400 + (yearOfEra d).1) / 4
        = era * 100 + ((yearOfEra d).1 / 4 : Nat) := by omega
    have h100 : (era * 400 + (yearOfEra d).1) / 100
        = era * 4 + ((yearOfEra d).1 / 100 : Nat) := by omega
    have h400 : (era * 400 + (yearOfEra d).1) / 400 = era := by omega
    rw [marchDay, h4, h100, h400]
    omega
  · simp only [Date.ofDay, dateFromMarch, hera, hd]

/-- The days from 1 March to the first of the month that comes `m` months later. -/
def monthStart (m : Nat) : Nat := (153 * m + 2) / 5

/-- The days from 1 March to the end of that month; the last one takes all that is left of the
year. -/
def monthEnd (year : Int) (m : Nat) : Nat :=
  if m < 11 then monthStart (m + 1) else lengthFromMarch year

/-- The date `j` days after the first of the month that comes `m` months after the March of a
year. -/
def dateInMonth (year : Int) (m j : Nat) : Date :=
  ⟨if m < 10 then year else year + 1, if m < 10 then m + 3 else m - 9, j + 1⟩

theorem monthEnd_cases (year : Int) {m : Nat} (hm : m < 12) :
    m < 11 ∧ monthEnd year m = monthStart (m + 1) ∧ monthStart (m + 1) ≤ 337 ∨
      m = 11 ∧ monthEnd year m = lengthFromMarch year := by
  unfold monthEnd monthStart
  split
  · exact Or.inl ⟨by omega, rfl, by omega⟩
  · exact Or.inr ⟨by omega, rfl⟩

theorem monthStart_lt_monthEnd (year : Int) {m : Nat} (hm : m < 12) :
    monthStart m < monthEnd year m := by
  have hlength := lengthFromMarch_cases year
  unfold monthEnd monthStart
  split <;> omega

theorem monthEnd_le (year : Int) {m : Nat} (hm : m < 12) :
    monthEnd year m ≤ monthStart (m + 1) := by
  have hlength := lengthFromMarch_cases year
  unfold monthEnd monthStart
  split <;> omega

/-- **The months are as long as they should be.** -/
theorem monthStart_add_monthLength (year : Int) {m : Nat} (hm : m < 12) (j : Nat) :
    monthStart m + monthLength (dateInMonth year m j).year (dateInMonth year m j).month
      = monthEnd year m := by
  rcases monthEnd_cases year hm with ⟨hlt, hend, -⟩ | ⟨rfl, hend⟩
  · rw [hend]
    interval_cases m <;> rfl
  · rw [hend]
    rcases lengthFromMarch_cases year with ⟨hleap, hlength⟩ | ⟨hleap, hlength⟩
    · simp [dateInMonth, monthLength, hlength, hleap, monthStart]
    · simp [dateInMonth, monthLength, hlength, hleap, monthStart]

theorem dateFromMarch_monthStart {year : Int} {m j : Nat} (hm : m < 12)
    (hj : monthStart m + j < monthEnd year m) :
    dateFromMarch year (monthStart m + j) = dateInMonth year m j := by
  have hend := monthEnd_le year hm
  have hfrom : (5 * (monthStart m + j) + 2) / 153 = m := by
    unfold monthStart at *
    omega
  have hstart : (153 * m + 2) / 5 = monthStart m := rfl
  simp only [dateFromMarch, dateInMonth, hfrom, hstart, Date.mk.injEq, true_and]
  refine ⟨?_, by omega⟩
  split <;> split <;> omega

/-- Every day of a year lies in a month. -/
theorem exists_month {year : Int} {k : Nat} (hk : k < lengthFromMarch year) :
    ∃ m j, m < 12 ∧ monthStart m + j < monthEnd year m ∧ k = monthStart m + j := by
  have hlength := lengthFromMarch_cases year
  have hm : (5 * k + 2) / 153 < 12 := by omega
  have hin : monthStart ((5 * k + 2) / 153) ≤ k ∧ k < monthEnd year ((5 * k + 2) / 153) := by
    unfold monthEnd monthStart
    split <;> omega
  exact ⟨_, k - monthStart ((5 * k + 2) / 153), hm, by omega, by omega⟩

/-- No two days of years have the same date. -/
theorem dateFromMarch_inj {year year' : Int} {k k' : Nat} (hk : k < lengthFromMarch year)
    (hk' : k' < lengthFromMarch year') (h : dateFromMarch year k = dateFromMarch year' k') :
    year = year' ∧ k = k' := by
  obtain ⟨m, j, hm, hj, rfl⟩ := exists_month hk
  obtain ⟨m', j', hm', hj', rfl⟩ := exists_month hk'
  rw [dateFromMarch_monthStart hm hj, dateFromMarch_monthStart hm' hj'] at h
  simp only [dateInMonth, Date.mk.injEq] at h
  obtain ⟨hyear, hmonth, hday⟩ := h
  -- the month of the calendar tells the month after March, and the two tell the year
  obtain rfl : m = m' := by
    split at hmonth <;> split at hmonth <;> omega
  refine ⟨?_, by omega⟩
  split at hyear <;> omega

/-! ### The date of the next day -/

section Next

variable {year : Int} {m j k : Nat}

theorem next_dateInMonth (hm : m < 12) (hj : monthStart m + (j + 1) < monthEnd year m) :
    (dateInMonth year m j).next = dateInMonth year m (j + 1) := by
  have hlength := monthStart_add_monthLength year hm j
  exact if_pos (show j + 1 < _ by omega)

/-- The last day of a month is followed by the first of the next one. -/
theorem next_dateInMonth_last (hm : m < 12) (hj : monthStart m + (j + 1) = monthEnd year m) :
    (dateInMonth year m j).next
      = if m < 11 then dateInMonth year (m + 1) 0 else dateInMonth (year + 1) 0 0 := by
  have hlength := monthStart_add_monthLength year hm j
  have hlast : ¬(dateInMonth year m j).day
      < monthLength (dateInMonth year m j).year (dateInMonth year m j).month :=
    show ¬(j + 1 < _) by omega
  rw [Date.next, if_neg hlast]
  interval_cases m <;> rfl

/-- Within a year the next date is that of the next place. -/
theorem next_dateFromMarch (hk : k + 1 < lengthFromMarch year) :
    (dateFromMarch year k).next = dateFromMarch year (k + 1) := by
  obtain ⟨m, j, hm, hj, rfl⟩ := @exists_month year k (by omega)
  rw [dateFromMarch_monthStart hm hj, Nat.add_assoc]
  by_cases hnext : monthStart m + (j + 1) < monthEnd year m
  · rw [next_dateInMonth hm hnext, dateFromMarch_monthStart hm hnext]
  -- the month is over and the year is not, so the month is not the last one
  · rcases monthEnd_cases year hm with ⟨hlt, hend, -⟩ | ⟨rfl, hend⟩
    · have hstart : monthStart m + (j + 1) = monthStart (m + 1) + 0 := by omega
      rw [next_dateInMonth_last hm (by omega), if_pos hlt, hstart]
      have hm' : m + 1 < 12 := by omega
      exact (dateFromMarch_monthStart hm' (monthStart_lt_monthEnd year hm')).symm
    · omega

/-- The last day of February is followed by 1 March. -/
theorem next_dateFromMarch_last (hk : k + 1 = lengthFromMarch year) :
    (dateFromMarch year k).next = dateFromMarch (year + 1) 0 := by
  obtain ⟨m, j, hm, hj, rfl⟩ := @exists_month year k (by omega)
  have hlength := lengthFromMarch_cases year
  rw [dateFromMarch_monthStart hm hj]
  rcases monthEnd_cases year hm with ⟨hlt, hend, hle⟩ | ⟨rfl, hend⟩
  · omega
  · rw [next_dateInMonth_last hm (by omega), if_neg (by omega)]
    exact (dateFromMarch_monthStart (by omega)
      (monthStart_lt_monthEnd (year + 1) (by omega))).symm

end Next

/-- The day of the epoch. -/
theorem Date.ofDay_zero : Date.ofDay 0 = ⟨1970, 1, 1⟩ := by decide

/-- **From one day to the next the date goes on as calendars do.** -/
theorem Date.ofDay_succ (n : Int) : Date.ofDay (n + 1) = (Date.ofDay n).next := by
  obtain ⟨year, k, hk, hn, hdate⟩ := exists_fromMarch n
  obtain ⟨year', k', hk', hn', hdate'⟩ := exists_fromMarch (n + 1)
  have hsucc := marchDay_succ year
  rw [hdate, hdate']
  by_cases hnext : k + 1 < lengthFromMarch year
  · obtain ⟨rfl, rfl⟩ := fromMarch_unique hk' hnext (by omega)
    exact (next_dateFromMarch hnext).symm
  · obtain ⟨rfl, rfl⟩ := fromMarch_unique hk' (lengthFromMarch_pos (year + 1)) (by omega)
    exact (next_dateFromMarch_last (by omega)).symm

/-- **No two days have the same date.** -/
theorem Date.ofDay_inj {n n' : Int} (h : Date.ofDay n = Date.ofDay n') : n = n' := by
  obtain ⟨year, k, hk, rfl, hdate⟩ := exists_fromMarch n
  obtain ⟨year', k', hk', rfl, hdate'⟩ := exists_fromMarch n'
  rw [hdate, hdate'] at h
  obtain ⟨rfl, rfl⟩ := dateFromMarch_inj hk hk' h
  rfl

/-- Months and days of months have two digits at most. -/
theorem Date.ofDay_lt (n : Int) : (Date.ofDay n).month < 100 ∧ (Date.ofDay n).day < 100 := by
  obtain ⟨year, k, hk, -, hdate⟩ := exists_fromMarch n
  obtain ⟨m, j, hm, hj, rfl⟩ := exists_month hk
  have hend := monthEnd_le year hm
  rw [hdate, dateFromMarch_monthStart hm hj]
  unfold dateInMonth monthStart at *
  refine ⟨?_, ?_⟩ <;> dsimp only
  · split <;> omega
  · omega

/-! ### Texts -/

@[simp] theorem toList_padded (width n : Nat) :
    (padded width n).toList = Digits.padded width n := String.toList_ofList

/-- A year is written with four digits, or with a sign that says whether it is negative. -/
theorem toList_yearText (year : Int) :
    0 ≤ year ∧ (yearText year).toList = Digits.padded 4 year.toNat ∨
      ∃ sign, (sign = '-' ∧ year < 0 ∨ sign = '+' ∧ 0 ≤ year) ∧
        (yearText year).toList = sign :: Digits.padded 6 year.natAbs := by
  unfold yearText
  split
  · next h => exact Or.inl ⟨h.1, toList_padded 4 _⟩
  · split
    · next hneg => exact Or.inr ⟨'-', Or.inl ⟨rfl, hneg⟩, by simp⟩
    · next hneg => exact Or.inr ⟨'+', Or.inr ⟨rfl, by omega⟩, by simp⟩

/-- Digits do not begin with a sign. -/
theorem padded_ne_sign {sign : Char} {year : Int}
    (hsign : sign = '-' ∧ year < 0 ∨ sign = '+' ∧ 0 ≤ year) (width n : Nat) (rest : List Char) :
    Digits.padded width n ≠ sign :: rest := by
  intro h
  have hdigit : sign.isDigit = true :=
    Digits.isDigit_of_mem_padded (h ▸ List.mem_cons_self : sign ∈ Digits.padded width n)
  rcases hsign with ⟨rfl, -⟩ | ⟨rfl, -⟩
  · exact absurd hdigit (by decide)
  · exact absurd hdigit (by decide)

theorem yearText_inj {year year' : Int} (h : yearText year = yearText year') : year = year' := by
  rcases toList_yearText year with ⟨hy, htext⟩ | ⟨sign, hsign, htext⟩ <;>
    rcases toList_yearText year' with ⟨hy', htext'⟩ | ⟨sign', hsign', htext'⟩ <;>
    rw [h, htext'] at htext
  · have hdigits := Digits.padded_inj htext
    omega
  · exact absurd htext.symm (padded_ne_sign hsign' _ _ _)
  · exact absurd htext (padded_ne_sign hsign _ _ _)
  · obtain ⟨rfl, hrest⟩ := List.cons.inj htext
    have hdigits := Digits.padded_inj hrest
    rcases hsign with ⟨rfl, hneg⟩ | ⟨rfl, hpos⟩ <;>
      rcases hsign' with ⟨hsame, hneg'⟩ | ⟨hsame, hpos'⟩
    · omega
    · exact absurd hsame (by decide)
    · exact absurd hsame (by decide)
    · omega

theorem length_two_digits {n : Nat} (h : n < 100) : (Digits.padded 2 n).length = 2 :=
  Digits.length_padded (by omega) h

/-- Two digits at the front of a text are read off it. -/
theorem two_digits_inj {n n' : Nat} {rest rest' : List Char} (hn : n < 100) (hn' : n' < 100)
    (h : Digits.padded 2 n ++ rest = Digits.padded 2 n' ++ rest') : n = n' ∧ rest = rest' := by
  obtain ⟨hdigits, hrest⟩ := List.append_inj h (by
    rw [length_two_digits hn, length_two_digits hn'])
  exact ⟨Digits.padded_inj hdigits, hrest⟩

theorem toList_text (d : Date) : d.text.toList = (yearText d.year).toList
    ++ '-' :: (Digits.padded 2 d.month ++ '-' :: Digits.padded 2 d.day) := by
  simp [Date.text]

/-- **A date is read off its text**, if month and day have two digits at most. -/
theorem Date.text_inj {d d' : Date} (hd : d.month < 100 ∧ d.day < 100)
    (hd' : d'.month < 100 ∧ d'.day < 100) (h : d.text = d'.text) : d = d' := by
  have hlist := congrArg String.toList h
  rw [toList_text, toList_text] at hlist
  obtain ⟨hyear, hrest⟩ := List.append_inj' hlist (by
    simp only [List.length_cons, List.length_append, length_two_digits, hd.1, hd.2, hd'.1, hd'.2])
  obtain ⟨hmonth, hrest⟩ := two_digits_inj hd.1 hd'.1 (List.cons.inj hrest).2
  have hday := Digits.padded_inj (List.cons.inj hrest).2
  have hsame := yearText_inj (String.toList_inj.mp hyear)
  obtain ⟨year, month, day⟩ := d
  subst hsame hmonth hday
  rfl

theorem toList_timeText (millis : Nat) : (timeText millis).toList
    = Digits.padded 2 (millis / 3600000) ++ ':' :: (Digits.padded 2 (millis / 60000 % 60)
      ++ ':' :: (Digits.padded 2 (millis / 1000 % 60)
        ++ '.' :: Digits.padded 3 (millis % 1000))) := by
  simp [timeText]

/-- All texts of times are equally long. -/
theorem length_timeText {millis : Nat} (h : millis < 86400000) :
    (timeText millis).toList.length = 12 := by
  have hmillis : (Digits.padded 3 (millis % 1000)).length = 3 :=
    Digits.length_padded (by omega) (show millis % 1000 < 1000 by omega)
  rw [toList_timeText]
  simp only [List.length_append, List.length_cons, hmillis,
    length_two_digits (show millis / 3600000 < 100 by omega),
    length_two_digits (show millis / 60000 % 60 < 100 by omega),
    length_two_digits (show millis / 1000 % 60 < 100 by omega)]

/-- **A time of day is read off its text.** -/
theorem timeText_inj {millis millis' : Nat} (hm : millis < 86400000) (hm' : millis' < 86400000)
    (h : timeText millis = timeText millis') : millis = millis' := by
  have hlist := congrArg String.toList h
  rw [toList_timeText, toList_timeText] at hlist
  obtain ⟨hhours, hrest⟩ := two_digits_inj (by omega) (by omega) hlist
  obtain ⟨hminutes, hrest⟩ := two_digits_inj (by omega) (by omega) (List.cons.inj hrest).2
  obtain ⟨hseconds, hrest⟩ := two_digits_inj (by omega) (by omega) (List.cons.inj hrest).2
  have hmillis := Digits.padded_inj (List.cons.inj hrest).2
  omega

/-- **The text of an instant is the text of no other.** -/
theorem isoText?_inj {t t' : Int} {s : String} (h : isoText? t = some s)
    (h' : isoText? t' = some s) : t = t' := by
  have hpos : (0 : Int) ≤ millisPerDay := by decide
  have hsplit : ∀ u : Int, u = u.fdiv millisPerDay * 86400000 + (u.fmod millisPerDay).toNat ∧
      (u.fmod millisPerDay).toNat < 86400000 := by
    intro u
    rw [Int.fdiv_eq_ediv_of_nonneg _ hpos, Int.fmod_eq_emod_of_nonneg _ hpos]
    unfold millisPerDay
    omega
  have htext : ∀ {u : Int}, isoText? u = some s → s.toList
      = (Date.ofDay (u.fdiv millisPerDay)).text.toList
        ++ ('T' :: ((timeText (u.fmod millisPerDay).toNat).toList ++ ['Z'])) := by
    intro u hu
    unfold isoText? at hu
    split at hu
    · rw [← Option.some.inj hu]
      simp
    · cases hu
  obtain ⟨ht, hlt⟩ := hsplit t
  obtain ⟨ht', hlt'⟩ := hsplit t'
  obtain ⟨hdate, hrest⟩ := List.append_inj' ((htext h).symm.trans (htext h')) (by
    simp [length_timeText hlt, length_timeText hlt'])
  have hday := Date.ofDay_inj (Date.text_inj (Date.ofDay_lt _) (Date.ofDay_lt _)
    (String.toList_inj.mp hdate))
  have htime := timeText_inj hlt hlt' (String.toList_inj.mp
    (List.append_cancel_right (List.cons.inj hrest).2))
  omega

end Calendar

end ConfigSource
