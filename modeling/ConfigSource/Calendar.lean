import ConfigSource.Digits

/-!
# Instants and their text

An **instant** is a number of milliseconds since 1 January 1970. Its text gives the date of the
proleptic Gregorian calendar, in which the year zero exists, and the time of day in UTC:
`1970-01-01T00:00:00.000Z`. Years from 0 to 9999 have four digits, all others a sign and six.

Instants further than a hundred million days from the epoch have no text.

* `ConfigSource.Calendar.Date.ofDay`: the date of a day, counted from the epoch;
* `ConfigSource.Calendar.isoText?`: the text of an instant.

The date is found in the calendar that begins on 1 March of the year zero. There the leap day is the
last of its year, so that the day of the year and the month follow by division.
-/

namespace ConfigSource

namespace Calendar

/-- A date of the proleptic Gregorian calendar. -/
structure Date where
  /-- The year; zero and negative years exist. -/
  year : Int
  /-- The month, from 1. -/
  month : Nat
  /-- The day of the month, from 1. -/
  day : Nat
deriving DecidableEq

/-- The days from 1 March of the year zero to the epoch. -/
def daysToEpoch : Int := 719468

/-- The days of four hundred years. -/
def daysPerEra : Int := 146097

/-- The year of the era, and the day of that year, of the day `d` of an era of four hundred years
that begins in March. -/
def yearOfEra (d : Nat) : Nat × Nat :=
  let year := (d - d / 1460 + d / 36524 - d / 146096) / 365
  (year, d - (365 * year + year / 4 - year / 100))

/-- The date of the day `n` after the epoch. -/
def Date.ofDay (n : Int) : Date :=
  let shifted := n + daysToEpoch
  let era := shifted.fdiv daysPerEra
  let yearAndDay := yearOfEra (shifted.fmod daysPerEra).toNat
  let fromMarch := (5 * yearAndDay.2 + 2) / 153
  let month := if fromMarch < 10 then fromMarch + 3 else fromMarch - 9
  let year : Int := era * 400 + yearAndDay.1
  { year := if month ≤ 2 then year + 1 else year
    month := month
    day := yearAndDay.2 - (153 * fromMarch + 2) / 5 + 1 }

/-- The text of `n`, with at least `width` digits. -/
def padded (width n : Nat) : String := String.ofList (Digits.padded width n)

/-- The text of a year. -/
def yearText (year : Int) : String :=
  if 0 ≤ year ∧ year ≤ 9999 then padded 4 year.toNat
  else (if year < 0 then "-" else "+") ++ padded 6 year.natAbs

/-- The text of a date. -/
def Date.text (d : Date) : String :=
  yearText d.year ++ "-" ++ padded 2 d.month ++ "-" ++ padded 2 d.day

/-- The milliseconds of a day. -/
def millisPerDay : Int := 86400000

/-- The text of a time of day, given in milliseconds. -/
def timeText (millis : Nat) : String :=
  padded 2 (millis / 3600000) ++ ":" ++ padded 2 (millis / 60000 % 60) ++ ":"
    ++ padded 2 (millis / 1000 % 60) ++ "." ++ padded 3 (millis % 1000)

/-- The furthest instant from the epoch that has a text. -/
def lastInstant : Int := 8640000000000000

/-- Whether an instant has a text. -/
def isValid (t : Int) : Bool := decide (-lastInstant ≤ t ∧ t ≤ lastInstant)

/-- The text of an instant, or nothing if it lies too far from the epoch. -/
def isoText? (t : Int) : Option String :=
  if isValid t then
    some ((Date.ofDay (t.fdiv millisPerDay)).text ++ "T"
      ++ timeText (t.fmod millisPerDay).toNat ++ "Z")
  else none

end Calendar

end ConfigSource
