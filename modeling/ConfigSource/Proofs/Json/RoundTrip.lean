import ConfigSource.Json.Printer
import ConfigSource.Json.Reader
import ConfigSource.Proofs.Decimal.Whole
import ConfigSource.Proofs.Table
import Mathlib.Data.List.TakeWhile

/-!
# Reading what was written

The JSON text of a value is read as the value (`ConfigSource.Json.read?_json`), and that of members
as the table that is written from them (`ConfigSource.Json.read?_recordOf`), provided that the value
**reads back** (`ConfigSource.Value.ReadsBack`): it is data throughout, its records double no key,
and its numbers are read as they are written.

Of texts nothing is asked. A character is escaped where it has to be, and half a character is never
written, so every text is read as it was (`ConfigSource.Json.readText_quoted`). Numbers are another
matter, as they are held with 53 binary digits only: a number of more digits is read as one nearby.
Whole numbers that fit are read as they are (`ConfigSource.Decimal.readsBack_ofInt`).

A text is read from its front, so a statement about a whole text does not go through an induction.
What does is that a value is read wherever its text stands (`ConfigSource.Json.Reads`): in front of
anything that can follow a value (`ConfigSource.Json.Closes`), in any number of steps that exceeds
its length.
-/

namespace ConfigSource

namespace Json

/-! ### Texts -/

theorem digit?_hexDigit : ∀ n < 16, Numeral.digit? 16 (hexDigit n) = some n := by decide

/-- The code of a control character is read from its two digits. -/
theorem hexCode?_control {n : Nat} (h : n < 0x20) :
    hexCode? ['0', '0', hexDigit (n / 16), hexDigit (n % 16)] = some n := by
  have hzero : Numeral.digit? 16 '0' = some 0 := by decide
  have hhigh := digit?_hexDigit (n / 16) (by omega)
  have hlow := digit?_hexDigit (n % 16) (by omega)
  have hcode : 16 * (n / 16) + n % 16 = n := Nat.div_add_mod n 16
  simp [hexCode?, hzero, hhigh, hlow, hcode]

section Codes

variable {c d : Char} (more : List Char)

theorem readCodes_unescape (hmeant : unescape? c = some d) (hc : c ≠ 'u') :
    readCodes ('\\' :: c :: more)
      = (readCodes more).map fun read => (d.toNat :: read.1, read.2) := by
  rw [readCodes.eq_4 c more (fun _ _ _ _ _ h => absurd h hc), hmeant]
  cases readCodes more <;> rfl

theorem readCodes_control {n : Nat} (h : n < 0x20) :
    readCodes ('\\' :: 'u' :: '0' :: '0' :: hexDigit (n / 16) :: hexDigit (n % 16) :: more)
      = (readCodes more).map fun read => (n :: read.1, read.2) := by
  rw [readCodes.eq_3, hexCode?_control h]
  cases readCodes more <;> rfl

theorem readCodes_plain (hquote : c ≠ '"') (hslash : c ≠ '\\') (hcontrol : ¬c.toNat < 0x20) :
    readCodes (c :: more) = (readCodes more).map fun read => (c.toNat :: read.1, read.2) := by
  rw [readCodes.eq_5 c more hquote (fun _ _ _ _ _ h => absurd h hslash)
    (fun _ _ h => absurd h hslash), if_neg (not_or.mpr ⟨hcontrol, hslash⟩)]
  cases readCodes more <;> rfl

end Codes

/-- **One character is read**, whether it stands for itself or is escaped. -/
theorem readCodes_escape (c : Char) (more : List Char) :
    readCodes (escape c ++ more)
      = (readCodes more).map fun read => (c.toNat :: read.1, read.2) := by
  unfold escape
  split
  · next h =>
    rcases h with rfl | rfl
    -- the two signs that have an escape of their own; no sign is written with a letter
    · exact readCodes_unescape more rfl (by decide)
    · exact readCodes_unescape more rfl (by decide)
  · next hplain =>
    obtain ⟨hquote, hslash⟩ := not_or.mp hplain
    have hescape : needsEscape c = true ↔ c.toNat < 0x20 := by simp [needsEscape, hquote, hslash]
    split
    · next h => exact readCodes_control more (hescape.mp h)
    · next h => exact readCodes_plain more hquote hslash (mt hescape.mpr h)

theorem readCodes_quoted (cs rest : List Char) :
    readCodes (cs.flatMap escape ++ '"' :: rest) = some (cs.map Char.toNat, rest) := by
  induction cs with
  | nil => simp [readCodes]
  | cons c cs ih =>
    rw [List.flatMap_cons, List.append_assoc, readCodes_escape, ih, Option.map_some, List.map_cons]

/-- A character is no half of one. -/
theorem not_half (c : Char) : isFirstHalf c.toNat = false ∧ isSecondHalf c.toNat = false := by
  have hvalid : c.toNat < 0xD800 ∨ 0xDFFF < c.toNat ∧ c.toNat < 0x110000 := c.valid
  unfold isFirstHalf isSecondHalf
  simp only [decide_eq_false_iff_not]
  omega

theorem loneChar_toNat (c : Char) : loneChar c.toNat = c := by
  obtain ⟨hfirst, hsecond⟩ := not_half c
  rw [loneChar, if_neg (by simp [hfirst, hsecond]), Char.ofNat_toNat]

theorem ofCodes_toNat (cs : List Char) : ofCodes (cs.map Char.toNat) = cs := by
  induction cs with
  | nil => rfl
  | cons c cs ih =>
    cases cs with
    | nil => exact congrArg (· :: []) (loneChar_toNat c)
    | cons d cs =>
      rw [List.map_cons, List.map_cons, ofCodes, if_neg (by simp [(not_half c).1]),
        loneChar_toNat, ← List.map_cons, ih]

/-- **A text is read as it was**, up to its closing quotation mark. -/
theorem readText_quoted (s : String) (rest : List Char) :
    readText (s.toList.flatMap escape ++ '"' :: rest) = some (s, rest) := by
  rw [readText, readCodes_quoted, Option.map_some, ofCodes_toNat, String.ofList_toList]

theorem toList_quote (s : String) :
    (quote s).toList = '"' :: (s.toList.flatMap escape ++ ['"']) := by
  simp [quote, quoteChars]

/-! ### What follows a value -/

/-- What may follow a value: nothing, or a sign that ends it. -/
def Closes (rest : List Char) : Prop := ∀ c ∈ rest.head?, c = ',' ∨ c = ']' ∨ c = '\x7d'

theorem closes_cons {c : Char} (h : c = ',' ∨ c = ']' ∨ c = '\x7d') (cs : List Char) :
    Closes (c :: cs) := by
  intro d hd
  rwa [← Option.some.inj hd]

theorem skipSpace_cons {c : Char} (h : isSpace c = false) (cs : List Char) :
    skipSpace (c :: cs) = c :: cs := by
  rw [skipSpace, List.dropWhile_cons, h]
  rfl

variable {rest : List Char}

theorem Closes.isDigit (h : Closes rest) : ∀ c ∈ rest.head?, c.isDigit = false := by
  intro c hc
  rcases h c hc with rfl | rfl | rfl <;> rfl

/-- A run of characters ends where a text ends that the run cannot go on behind. -/
theorem span_append {p : Char → Bool} (h : ∀ c ∈ rest.head?, p c = false) (cs : List Char) :
    (cs ++ rest).takeWhile p = cs.takeWhile p ∧
      (cs ++ rest).dropWhile p = cs.dropWhile p ++ rest := by
  induction cs with
  | nil =>
    cases rest with
    | nil => exact ⟨rfl, rfl⟩
    | cons c rest => simp [h c rfl]
  | cons c cs ih => cases hc : p c <;> simp [hc, ih]

/-! ### Numbers -/

theorem takeSign_append (h : Closes rest) (cs : List Char) :
    Numeral.takeSign (cs ++ rest)
      = ((Numeral.takeSign cs).1, (Numeral.takeSign cs).2 ++ rest) := by
  cases cs with
  | nil =>
    -- only here is it asked what follows, and that is no sign of a number
    cases rest with
    | nil => rfl
    | cons c rest => rcases h c rfl with rfl | rfl | rfl <;> rfl
  | cons c cs =>
    by_cases hminus : c = '-'
    · subst hminus
      rfl
    · by_cases hplus : c = '+'
      · subst hplus
        rfl
      · simp [Numeral.takeSign, hminus, hplus]

theorem takeFraction?_append (h : Closes rest) (cs : List Char) :
    Numeral.takeFraction? (cs ++ rest)
      = (Numeral.takeFraction? cs).map fun split => (split.1, split.2 ++ rest) := by
  cases cs with
  | nil =>
    cases rest with
    | nil => rfl
    | cons c rest => rcases h c rfl with rfl | rfl | rfl <;> rfl
  | cons c cs =>
    by_cases hpoint : c = '.'
    · subst hpoint
      obtain ⟨htake, hdrop⟩ := span_append h.isDigit cs
      simp [Numeral.takeFraction?, htake, hdrop]
    · simp [Numeral.takeFraction?, hpoint]

theorem takeExponent?_append (h : Closes rest) (cs : List Char) :
    Numeral.takeExponent? (cs ++ rest)
      = (Numeral.takeExponent? cs).map fun read => (read.1, read.2 ++ rest) := by
  cases cs with
  | nil =>
    cases rest with
    | nil => rfl
    | cons c rest => rcases h c rfl with rfl | rfl | rfl <;> rfl
  | cons c cs =>
    by_cases hmark : c = 'e' ∨ c = 'E'
    · obtain ⟨htake, hdrop⟩ := span_append h.isDigit (Numeral.takeSign cs).2
      simp only [Numeral.takeExponent?, List.cons_append, if_pos hmark, takeSign_append h, htake,
        hdrop]
      split <;> rfl
    · simp [Numeral.takeExponent?, if_neg hmark]

/-- **The parts of a number are the same whatever follows it.** -/
theorem scan?_append (h : Closes rest) (cs : List Char) :
    Numeral.scan? (cs ++ rest)
      = (Numeral.scan? cs).map fun s => { s with rest := s.rest ++ rest } := by
  obtain ⟨htake, hdrop⟩ := span_append h.isDigit cs
  simp only [Numeral.scan?, htake, hdrop, takeFraction?_append h]
  cases Numeral.takeFraction? (cs.dropWhile Char.isDigit) <;>
    simp [takeExponent?_append h, Function.comp_def]

/-- The number that its parts make. -/
def numberOf (negative : Bool) (s : Numeral.Scan) : Option (Value × List Char) :=
  if isWhole s.whole && !(s.pointed && s.fraction.isEmpty) then
    some (ofNumeral (s.numeral negative), s.rest)
  else none

theorem readNumber_minus (cs : List Char) :
    readNumber ('-' :: cs) = (Numeral.scan? cs).bind (numberOf true) :=
  rfl

theorem readNumber_of_ne {c : Char} (hc : c ≠ '-') (cs : List Char) :
    readNumber (c :: cs) = (Numeral.scan? (c :: cs)).bind (numberOf false) := by
  simp only [readNumber, List.head?_cons, Option.some.injEq, hc, if_false, decide_false]
  rfl

theorem numberOf_append (h : Closes rest) (negative : Bool) (cs : List Char) :
    (Numeral.scan? (cs ++ rest)).bind (numberOf negative)
      = ((Numeral.scan? cs).bind (numberOf negative)).map
          fun read => (read.1, read.2 ++ rest) := by
  rw [scan?_append h]
  cases Numeral.scan? cs with
  | none => rfl
  | some s =>
    simp only [Option.map_some, Option.bind_some, numberOf, Numeral.Scan.numeral]
    split <;> rfl

/-- So is the number that is read. -/
theorem readNumber_append (h : Closes rest) {cs : List Char} (hcs : cs ≠ []) :
    readNumber (cs ++ rest) = (readNumber cs).map fun read => (read.1, read.2 ++ rest) := by
  obtain ⟨c, cs, rfl⟩ := List.exists_cons_of_ne_nil hcs
  by_cases hc : c = '-'
  · subst hc
    rw [List.cons_append, readNumber_minus, readNumber_minus, numberOf_append h]
  · rw [List.cons_append, readNumber_of_ne hc, readNumber_of_ne hc, ← List.cons_append,
      numberOf_append h]

/-- A number begins with a minus sign or a digit. -/
theorem head_of_readNumber {cs : List Char} {read : Value × List Char}
    (h : readNumber cs = some read) :
    ∃ c more, cs = c :: more ∧ (c = '-' ∨ c.isDigit = true) := by
  cases cs with
  | nil => cases h
  | cons c more =>
    refine ⟨c, more, rfl, ?_⟩
    by_contra hnot
    obtain ⟨hminus, hdigit⟩ := not_or.mp hnot
    rw [readNumber_of_ne hminus] at h
    obtain ⟨s, hs, hnumber⟩ := Option.bind_eq_some_iff.mp h
    have hwhole : s.whole = [] := by
      simp only [Numeral.scan?, List.takeWhile_cons, hdigit] at hs
      obtain ⟨exponent, -, rfl⟩ := Option.map_eq_some_iff.mp hs
      rfl
    simp [numberOf, hwhole, isWhole] at hnumber

theorem isWhole_padded (n : Nat) : isWhole (Digits.padded 1 n) = true := by
  rcases Nat.eq_zero_or_pos n with rfl | hn
  · rfl
  · obtain ⟨c, more, hdigits, hc⟩ := Digits.exists_toDigits hn
    simp [isWhole, Digits.padded_one, hdigits, hc]

/-- The digits of a number are parts of one, and all of its parts. -/
theorem scan?_padded (n : Nat) :
    Numeral.scan? (Digits.padded 1 n) = some ⟨Digits.padded 1 n, false, [], 0, []⟩ := by
  have hdigits : ∀ c ∈ Digits.padded 1 n, c.isDigit = true :=
    fun _ => Digits.isDigit_of_mem_padded
  simp [Numeral.scan?, List.takeWhile_eq_self_iff.mpr hdigits,
    List.dropWhile_eq_nil_iff.mpr hdigits, Numeral.takeFraction?, Numeral.takeExponent?]

/-- **A whole number that fits is read from its digits**, with a minus sign or without. -/
theorem readNumber_padded (negative : Bool) {n : Nat} (h : n < 2 * Binary.leastFull) :
    readNumber ((if negative then ['-'] else []) ++ Digits.padded 1 n)
      = some (.number (.ofInt (if negative then -n else n)), []) := by
  have hnumber : (Numeral.scan? (Digits.padded 1 n)).bind (numberOf negative)
      = some (.number (.ofInt (if negative then -n else n)), []) := by
    simp [scan?_padded, numberOf, isWhole_padded, Numeral.Scan.numeral, Digits.value_padded,
      Decimal.held?_whole negative h, Numeral.ofHeld, ofNumeral]
  cases negative with
  | true => exact hnumber
  | false =>
    obtain ⟨c, more, hcons⟩ := List.exists_cons_of_ne_nil
      (Digits.padded_one n ▸ Nat.toDigits_ne_nil : Digits.padded 1 n ≠ [])
    have hc : c.isDigit = true := Digits.isDigit_of_mem_padded (hcons ▸ List.mem_cons_self)
    have hminus : c ≠ '-' := by
      rintro rfl
      cases hc
    rw [hcons] at hnumber ⊢
    exact (readNumber_of_ne hminus more).trans hnumber

end Json

/-- The text of a number is read as the number. -/
def Decimal.ReadsBack (d : Decimal) : Prop :=
  Json.readNumber d.render.toList = some (.number d, [])

/-- **A whole number that fits is read back.** -/
theorem Decimal.readsBack_ofInt {m : Int} (h : m.natAbs < 2 * Binary.leastFull) :
    (ofInt m).ReadsBack := by
  have hcount := Binary.count_le_of_lt h
  have hpos : 0 < Digits.count m.natAbs := Nat.length_toDigits_pos
  have hpositional : -6 ≤ (ofInt m).magnitude ∧ (ofInt m).magnitude ≤ 20 := by
    simp only [magnitude, ofInt]
    omega
  have htext : (ofInt m).render.toList
      = (if decide (m < 0) then ['-'] else []) ++ Digits.padded 1 m.natAbs := by
    rw [render, if_pos (Or.inr hpositional), String.toList_ofList, positional]
    by_cases hm : m < 0 <;> simp [ofInt, sign, hm]
  have hvalue : (if decide (m < 0) then -(m.natAbs : Int) else m.natAbs) = m := by
    by_cases hm : m < 0
    · rw [if_pos (decide_eq_true hm)]
      omega
    · rw [if_neg (by simpa using hm)]
      omega
  rw [ReadsBack, htext, Json.readNumber_padded _ h, hvalue]

/-- Minus two and a half is read back as well. -/
example : (⟨-25, 1⟩ : Decimal).ReadsBack := by rfl

/-- A value whose text is read as the value: it is data throughout, its records double no key, and
its numbers are read back. -/
inductive Value.ReadsBack : Value → Prop
  /-- `null` is. -/
  | null : ReadsBack .null
  /-- A truth value is. -/
  | bool (b : Bool) : ReadsBack (.bool b)
  /-- A number is, if its own text is read as the number. -/
  | number {n : Decimal} (h : n.ReadsBack) : ReadsBack (.number n)
  /-- Any text is. -/
  | text (s : String) : ReadsBack (.text s)
  /-- A list is, if its items are. -/
  | list {items : List Value} (h : ∀ v ∈ items, ReadsBack v) : ReadsBack (.list items)
  /-- A record is that doubles no key, if its members are. -/
  | record {members : List (String × Value)} (keys : (Table.keys members).Nodup)
      (h : ∀ m ∈ members, ReadsBack m.2) : ReadsBack (.record members)

namespace Json

/-! ### Texts of values -/

theorem jsonItems_eq (items : List Value) : Value.jsonItems items = items.map Value.json := by
  induction items with
  | nil => rw [Value.jsonItems, List.map_nil]
  | cons v items ih => rw [Value.jsonItems, ih, List.map_cons]

/-- The text of a member. -/
def memberText (m : String × Value) : String := quote m.1 ++ ":" ++ m.2.json

theorem jsonMembers_eq (members : List (String × Value)) :
    Value.jsonMembers members = members.map memberText := by
  induction members with
  | nil => rw [Value.jsonMembers, List.map_nil]
  | cons m members ih => rw [Value.jsonMembers, ih, List.map_cons, memberText]

theorem toList_memberText (m : String × Value) :
    (memberText m).toList
      = '"' :: (m.1.toList.flatMap escape ++ '"' :: ':' :: m.2.json.toList) := by
  simp [memberText, toList_quote]

theorem length_json_lt (m : String × Value) :
    m.2.json.toList.length < (memberText m).toList.length := by
  rw [toList_memberText]
  simp only [List.length_cons, List.length_append]
  omega

/-- Texts with commas between them. -/
def joined (texts : List String) : List Char := (String.intercalate "," texts).toList

theorem joined_singleton (s : String) : joined [s] = s.toList := by
  simp [joined]

theorem joined_cons_cons (s t : String) (texts : List String) :
    joined (s :: t :: texts) = s.toList ++ ',' :: joined (t :: texts) := by
  simp [joined, String.toList_intercalate]

theorem toList_json_list (items : List Value) :
    (Value.list items).json.toList = '[' :: (joined (items.map Value.json) ++ [']']) := by
  simp [Value.json, jsonItems_eq, joined]

theorem toList_recordOf (texts : List String) :
    (recordOf texts).toList = '\x7b' :: (joined texts ++ ['\x7d']) := by
  simp [recordOf, joined, openRecord, closeRecord]

/-! ### Beginnings -/

/-- A text begins with something that is neither a space nor the sign that would end it. -/
def Begins (close : Char) (cs : List Char) : Prop :=
  ∃ c more, cs = c :: more ∧ isSpace c = false ∧ c ≠ close

theorem Begins.append {close : Char} {cs : List Char} (h : Begins close cs) (more : List Char) :
    Begins close (cs ++ more) := by
  obtain ⟨c, behind, rfl, hspace, hclose⟩ := h
  exact ⟨c, behind ++ more, rfl, hspace, hclose⟩

/-- What a digit is not. -/
theorem ne_of_isDigit {c d : Char} (h : c.isDigit = true) (hd : d.isDigit = false) : c ≠ d := by
  rintro rfl
  rw [h] at hd
  cases hd

theorem isSpace_of_isDigit {c : Char} (h : c.isDigit = true) : isSpace c = false := by
  refine Bool.eq_false_iff.mpr fun hspace => ?_
  simp only [isSpace, decide_eq_true_eq] at hspace
  rcases hspace with rfl | rfl | rfl | rfl <;> cases h

/-- A value that reads back begins with something that no list ends with. -/
theorem begins_json {v : Value} (h : v.ReadsBack) : Begins ']' v.json.toList := by
  cases h with
  | null => exact ⟨'n', _, rfl, rfl, by decide⟩
  | bool b =>
    cases b with
    | true => exact ⟨'t', _, rfl, rfl, by decide⟩
    | false => exact ⟨'f', _, rfl, rfl, by decide⟩
  | number h =>
    rw [Value.json]
    obtain ⟨c, more, hc, rfl | hdigit⟩ := head_of_readNumber h
    · exact ⟨'-', more, hc, rfl, by decide⟩
    · exact ⟨c, more, hc, isSpace_of_isDigit hdigit, ne_of_isDigit hdigit rfl⟩
  | text s =>
    rw [Value.json, toList_quote]
    exact ⟨'"', _, rfl, rfl, by decide⟩
  | list h =>
    rw [toList_json_list]
    exact ⟨'[', _, rfl, rfl, by decide⟩
  | record keys h =>
    rw [Value.json, toList_recordOf]
    exact ⟨'\x7b', _, rfl, rfl, by decide⟩

theorem begins_joined {close : Char} {s : String} {texts : List String}
    (h : Begins close s.toList) : Begins close (joined (s :: texts)) := by
  cases texts with
  | nil => rwa [joined_singleton]
  | cons t texts =>
    rw [joined_cons_cons]
    exact h.append _

theorem begins_memberText (m : String × Value) : Begins '\x7d' (memberText m).toList := by
  rw [toList_memberText]
  exact ⟨'"', _, rfl, rfl, by decide⟩

/-! ### One step -/

section Step

variable {steps : Nat} {cs more text : List Char} {c : Char} {v : Value} {key : String}

theorem readWord_word (h : (cs, v) ∈ words) (rest : List Char) :
    readWord (cs ++ rest) = some (v, rest) := by
  simp only [words, List.mem_cons, Prod.mk.injEq, List.not_mem_nil, or_false] at h
  rcases h with ⟨rfl, rfl⟩ | ⟨rfl, rfl⟩ | ⟨rfl, rfl⟩ <;> rfl

theorem readWord_of_ne (h : c ∉ ['n', 't', 'f']) (cs : List Char) : readWord (c :: cs) = none := by
  simp only [List.mem_cons, List.not_mem_nil, or_false, not_or] at h
  obtain ⟨hn, ht, hf⟩ := h
  simp [readWord, words, Ne.symm hn, Ne.symm ht, Ne.symm hf]

/-- What begins neither a text nor a list nor a record is a word or a number. -/
theorem readValue_scalar (hspace : isSpace c = false) (hquote : c ≠ '"') (hlist : c ≠ '[')
    (hrecord : c ≠ '\x7b') (steps : Nat) (cs : List Char) :
    readValue (steps + 1) (c :: cs) = (readWord (c :: cs)).or (readNumber (c :: cs)) := by
  rw [readValue, skipSpace_cons hspace]
  split
  · next h => exact absurd (List.cons.inj h).1 hquote
  · next h => exact absurd (List.cons.inj h).1 hlist
  · next h => exact absurd (List.cons.inj h).1 hrecord
  · rfl

theorem readValue_text (steps : Nat) (s : String) (rest : List Char) :
    readValue (steps + 1) ((quote s).toList ++ rest) = some (.text s, rest) := by
  rw [toList_quote, List.cons_append, List.append_assoc, List.singleton_append, readValue,
    skipSpace_cons rfl]
  simp only [readText_quoted, Option.map_some]

theorem readValue_list (h : Begins ']' cs) (steps : Nat) :
    readValue (steps + 1) ('[' :: cs)
      = (readItems steps cs).map fun read => (.list read.1, read.2) := by
  obtain ⟨c, more, rfl, hspace, hclose⟩ := h
  rw [readValue, skipSpace_cons rfl]
  simp only [skipSpace_cons hspace]
  split
  · next h => exact absurd (List.cons.inj h).1 hclose
  · rfl

theorem readValue_record (h : Begins '\x7d' cs) (steps : Nat) :
    readValue (steps + 1) ('\x7b' :: cs)
      = (readMembers steps cs).map fun read => (.record (Table.ofList read.1), read.2) := by
  obtain ⟨c, more, rfl, hspace, hclose⟩ := h
  rw [readValue, skipSpace_cons rfl]
  simp only [skipSpace_cons hspace]
  split
  · next h => exact absurd (List.cons.inj h).1 hclose
  · rfl

theorem readItems_last (hv : readValue steps cs = some (v, ']' :: rest)) :
    readItems (steps + 1) cs = some ([v], rest) := by
  simp [readItems, hv, skipSpace_cons (show isSpace ']' = false from rfl)]

theorem readItems_more {items : List Value} (hv : readValue steps cs = some (v, ',' :: more))
    (hmore : readItems steps more = some (items, rest)) :
    readItems (steps + 1) cs = some (v :: items, rest) := by
  simp [readItems, hv, skipSpace_cons (show isSpace ',' = false from rfl), hmore]

theorem readMembers_last (hkey : readKey cs = some (key, text))
    (hv : readValue steps text = some (v, '\x7d' :: rest)) :
    readMembers (steps + 1) cs = some ([(key, v)], rest) := by
  simp [readMembers, hkey, hv, skipSpace_cons (show isSpace '\x7d' = false from rfl)]

theorem readMembers_more {members : List (String × Value)} (hkey : readKey cs = some (key, text))
    (hv : readValue steps text = some (v, ',' :: more))
    (hmore : readMembers steps more = some (members, rest)) :
    readMembers (steps + 1) cs = some ((key, v) :: members, rest) := by
  simp [readMembers, hkey, hv, skipSpace_cons (show isSpace ',' = false from rfl), hmore]

theorem readKey_memberText (m : String × Value) (rest : List Char) :
    readKey ((memberText m).toList ++ rest) = some (m.1, m.2.json.toList ++ rest) := by
  rw [toList_memberText, List.cons_append, List.append_assoc, List.cons_append, List.cons_append,
    readKey, skipSpace_cons rfl]
  simp [readText_quoted, skipSpace_cons (show isSpace ':' = false from rfl)]

end Step

/-! ### Values -/

/-- **A value is read wherever its text stands.** -/
def Reads (v : Value) : Prop :=
  ∀ steps rest, v.json.toList.length < steps → Closes rest →
    readValue steps (v.json.toList ++ rest) = some (v, rest)

/-- The items of a list are read one after the other. -/
theorem readItems_joined {v : Value} {items : List Value} (h : ∀ w ∈ v :: items, Reads w)
    {steps : Nat} (hsteps : (joined ((v :: items).map Value.json)).length < steps)
    (rest : List Char) :
    readItems (steps + 1) (joined ((v :: items).map Value.json) ++ ']' :: rest)
      = some (v :: items, rest) := by
  induction items generalizing v steps with
  | nil =>
    rw [List.map_cons, List.map_nil, joined_singleton] at hsteps ⊢
    exact readItems_last (h v List.mem_cons_self steps _ hsteps
      (closes_cons (Or.inr (Or.inl rfl)) rest))
  | cons w items ih =>
    rw [List.map_cons, List.map_cons, joined_cons_cons] at hsteps ⊢
    rw [List.length_append, List.length_cons] at hsteps
    rw [List.append_assoc]
    refine readItems_more (h v List.mem_cons_self steps _ (by omega)
      (closes_cons (Or.inl rfl) _)) ?_
    -- the comma pays for the step that was taken
    obtain ⟨below, rfl⟩ := Nat.exists_eq_succ_of_ne_zero (show steps ≠ 0 by omega)
    exact ih (List.forall_mem_cons.mp h).2 (by rw [List.map_cons]; omega)

/-- So are the members of a record. -/
theorem readMembers_joined {m : String × Value} {members : List (String × Value)}
    (h : ∀ w ∈ m :: members, Reads w.2) {steps : Nat}
    (hsteps : (joined ((m :: members).map memberText)).length < steps) (rest : List Char) :
    readMembers (steps + 1) (joined ((m :: members).map memberText) ++ '\x7d' :: rest)
      = some (m :: members, rest) := by
  induction members generalizing m steps with
  | nil =>
    have hlength := length_json_lt m
    rw [List.map_cons, List.map_nil, joined_singleton] at hsteps ⊢
    exact readMembers_last (readKey_memberText m _) (h m List.mem_cons_self steps _ (by omega)
      (closes_cons (Or.inr (Or.inr rfl)) rest))
  | cons w members ih =>
    have hlength := length_json_lt m
    rw [List.map_cons, List.map_cons, joined_cons_cons] at hsteps ⊢
    rw [List.length_append, List.length_cons] at hsteps
    rw [List.append_assoc]
    refine readMembers_more (readKey_memberText m _) (h m List.mem_cons_self steps _ (by omega)
      (closes_cons (Or.inl rfl) _)) ?_
    obtain ⟨below, rfl⟩ := Nat.exists_eq_succ_of_ne_zero (show steps ≠ 0 by omega)
    exact ih (List.forall_mem_cons.mp h).2 (by rw [List.map_cons]; omega)

/-- **Members are read as the table that is written from them.** -/
theorem readValue_recordOf {members : List (String × Value)} (h : ∀ m ∈ members, Reads m.2)
    {steps : Nat} (hsteps : (recordOf (members.map memberText)).toList.length < steps)
    (rest : List Char) :
    readValue steps ((recordOf (members.map memberText)).toList ++ rest)
      = some (.record (Table.ofList members), rest) := by
  rw [toList_recordOf, List.length_cons, List.length_append, List.length_singleton] at hsteps
  -- the braces pay for two steps, one to the record and one to its first member
  obtain ⟨steps, rfl⟩ := Nat.exists_eq_add_of_le' (show 2 ≤ steps by omega)
  rw [toList_recordOf, List.cons_append, List.append_assoc, List.singleton_append]
  cases members with
  | nil => rfl
  | cons m members =>
    have hmembers := readMembers_joined h (show _ < steps by omega) rest
    have hbegins : Begins '\x7d' (joined ((m :: members).map memberText)) :=
      begins_joined (begins_memberText m)
    rw [readValue_record (hbegins.append _), hmembers, Option.map_some]

/-- A value that is written as a word. -/
theorem reads_of_word {v : Value} {word : List Char} (h : (word, v) ∈ words)
    (hjson : v.json.toList = word) : Reads v := by
  intro steps rest hsteps hrest
  obtain ⟨steps, rfl⟩ := Nat.exists_eq_succ_of_ne_zero (Nat.ne_zero_of_lt hsteps)
  have hread := readWord_word h rest
  obtain ⟨c, more, rfl, hspace, hquote, hlist, hrecord⟩ : ∃ c more, word = c :: more ∧
      isSpace c = false ∧ c ≠ '"' ∧ c ≠ '[' ∧ c ≠ '\x7b' := by
    simp only [words, List.mem_cons, Prod.mk.injEq, List.not_mem_nil, or_false] at h
    rcases h with ⟨rfl, -⟩ | ⟨rfl, -⟩ | ⟨rfl, -⟩
    · exact ⟨'n', _, rfl, by decide⟩
    · exact ⟨'t', _, rfl, by decide⟩
    · exact ⟨'f', _, rfl, by decide⟩
  rw [List.cons_append] at hread
  rw [hjson, List.cons_append, readValue_scalar hspace hquote hlist hrecord, hread, Option.some_or]

/-- A number that is read back, whatever follows it. -/
theorem reads_of_number {n : Decimal} (h : n.ReadsBack) : Reads (.number n) := by
  intro steps rest hsteps hrest
  obtain ⟨steps, rfl⟩ := Nat.exists_eq_succ_of_ne_zero (Nat.ne_zero_of_lt hsteps)
  obtain ⟨c, more, hcons, hc⟩ := head_of_readNumber h
  have hread := readNumber_append hrest (hcons ▸ List.cons_ne_nil c more : n.render.toList ≠ [])
  rw [h, Option.map_some, List.nil_append, hcons, List.cons_append] at hread
  have hne : isSpace c = false ∧ c ≠ '"' ∧ c ≠ '[' ∧ c ≠ '\x7b' ∧ c ∉ ['n', 't', 'f'] := by
    rcases hc with rfl | hdigit
    · decide
    · have hother (d : Char) (hd : d.isDigit = false) : c ≠ d := ne_of_isDigit hdigit hd
      exact ⟨isSpace_of_isDigit hdigit, hother _ rfl, hother _ rfl, hother _ rfl,
        by simp [hother 'n' rfl, hother 't' rfl, hother 'f' rfl]⟩
  obtain ⟨hspace, hquote, hlist, hrecord, hword⟩ := hne
  rw [Value.json, hcons, List.cons_append, readValue_scalar hspace hquote hlist hrecord,
    readWord_of_ne hword, hread, Option.none_or]

/-- **What reads back is read wherever it stands.** -/
theorem reads_of_readsBack {v : Value} (h : v.ReadsBack) : Reads v := by
  induction h with
  | null => exact reads_of_word List.mem_cons_self rfl
  | bool b =>
    cases b with
    | true => exact reads_of_word (List.mem_cons_of_mem _ List.mem_cons_self) rfl
    | false =>
      exact reads_of_word (List.mem_cons_of_mem _ (List.mem_cons_of_mem _ List.mem_cons_self)) rfl
  | number h => exact reads_of_number h
  | text s =>
    intro steps rest hsteps hrest
    obtain ⟨steps, rfl⟩ := Nat.exists_eq_succ_of_ne_zero (Nat.ne_zero_of_lt hsteps)
    rw [Value.json]
    exact readValue_text steps s rest
  | @list items h ih =>
    intro steps rest hsteps hrest
    rw [toList_json_list, List.length_cons, List.length_append, List.length_singleton] at hsteps
    obtain ⟨steps, rfl⟩ := Nat.exists_eq_add_of_le' (show 2 ≤ steps by omega)
    rw [toList_json_list, List.cons_append, List.append_assoc, List.singleton_append]
    cases items with
    | nil => rfl
    | cons v items =>
      -- no item begins with the bracket that would make the list an empty one
      have hitems := readItems_joined ih (show _ < steps by omega) rest
      have hbegins : Begins ']' (joined ((v :: items).map Value.json)) :=
        begins_joined (begins_json (h v List.mem_cons_self))
      rw [readValue_list (hbegins.append _), hitems, Option.map_some]
  | @record members keys h ih =>
    intro steps rest hsteps hrest
    rw [Value.json, jsonMembers_eq] at hsteps ⊢
    rw [readValue_recordOf ih hsteps, Table.ofList_of_nodup keys]

/-- Nothing more than its own text is needed. -/
theorem read?_of_readValue {s : String} {v : Value}
    (h : readValue (s.toList.length + 1) (s.toList ++ []) = some (v, [])) : read? s = some v := by
  rw [List.append_nil] at h
  simp only [read?, h]
  rfl

/-- **The text of a value that reads back is read as the value.** -/
theorem read?_json {v : Value} (h : v.ReadsBack) : read? v.json = some v :=
  read?_of_readValue (reads_of_readsBack h _ [] (Nat.lt_succ_self _) (fun _ hc => nomatch hc))

/-- **The text of members is read as the table that is written from them**, whatever their keys are,
provided that their values read back. -/
theorem read?_recordOf {members : List (String × Value)} (h : ∀ m ∈ members, m.2.ReadsBack) :
    read? (recordOf (members.map memberText)) = some (.record (Table.ofList members)) :=
  read?_of_readValue
    (readValue_recordOf (fun m hm => reads_of_readsBack (h m hm)) (Nat.lt_succ_self _) [])

end Json

end ConfigSource
