import ConfigSource.Text.LowerCase
import Mathlib

/-!
# Spellings of a word

A text **spells** a word if it is the word in letters of either case: every character is that of the
word or its capital, one after the other, with nothing before, behind or between
(`ConfigSource.Text.Spells`). That is a comparison of characters, and a program compares the lower
case of the text instead. The two agree for the words that are **plain**
(`ConfigSource.Text.lowerCase_eq_iff`).

They do not agree for all words. Lower case is a matter of all alphabets, and there are two
characters beyond `0x7F` with a lower case that reaches below it. The sign of the kelvin becomes a
`k`, so a plain word has none. The capital `I` with a dot becomes an `i`, but a combining dot
follows, which is in no plain word.
-/

namespace ConfigSource

namespace Text

/-- A character of a text **stands for** one of a word: it is the same, or its capital. -/
def StandsFor (c d : Char) : Prop := c = d ∨ c = d.toUpper

instance (c d : Char) : Decidable (StandsFor c d) := inferInstanceAs (Decidable (_ ∨ _))

/-- **A text spells a word**: it has the characters of the word, in letters of either case. -/
def Spells (s word : String) : Prop := List.Forall₂ StandsFor s.toList word.toList

instance (s word : String) : Decidable (Spells s word) :=
  inferInstanceAs (Decidable (List.Forall₂ _ _ _))

/-- A character of a plain word: below `0x80`, its own lower case, and not the letter that the sign
of the kelvin becomes. -/
def IsPlainLetter (d : Char) : Prop := d.toNat < 0x80 ∧ d.toLower = d ∧ d ≠ 'k'

instance (d : Char) : Decidable (IsPlainLetter d) := inferInstanceAs (Decidable (_ ∧ _))

/-- **A plain word** consists of such characters. -/
def IsPlainWord (word : String) : Prop := ∀ d ∈ word.toList, IsPlainLetter d

instance (word : String) : Decidable (IsPlainWord word) := List.decidableBAll _ _

/-! ### One character -/

/-- What stands for a lower case letter is what has it as its lower case. -/
theorem standsFor_iff {c d : Char} (hd : d.toLower = d) : StandsFor c d ↔ c.toLower = d := by
  constructor
  · rintro (rfl | rfl)
    · exact hd
    · rw [Char.toLower_toUpper_eq_toLower, hd]
  · intro h
    by_cases hc : c.isUpper = true
    · refine Or.inr ?_
      rw [← h, Char.toUpper_toLower_eq_toUpper,
        Char.toUpper_eq_of_not_isLower (Char.not_isLower_of_isUpper hc)]
    · exact Or.inl ((Char.toLower_eq_of_not_isUpper hc).symm.trans h)

/-- A character that is its own lower case and beyond `0x7F` stands for no plain letter. -/
theorem not_standsFor_of_beyond {c d : Char} (hc : 0x80 ≤ c.toNat) (hlower : c.toLower = c)
    (hd : IsPlainLetter d) : ¬StandsFor c d := by
  intro h
  rw [standsFor_iff hd.2.1, hlower] at h
  subst h
  exact absurd hd.1 (by omega)

/-- **One step of the comparison**: the front of a lower case text is the front of a plain word
exactly if the character stands for it. -/
theorem lowerForm_append_eq_iff {c d : Char} {rest word : List Char} (hd : IsPlainLetter d)
    (hword : ∀ e ∈ word, IsPlainLetter e) :
    lowerForm c ++ rest = d :: word ↔ StandsFor c d ∧ rest = word := by
  by_cases hkelvin : c = kelvinSign
  · subst hkelvin
    have hform : lowerForm kelvinSign = ['k'] := rfl
    refine iff_of_false (fun h => ?_)
      fun h => not_standsFor_of_beyond (by decide) (by decide) hd h.1
    rw [hform, List.singleton_append, List.cons.injEq] at h
    exact hd.2.2 h.1.symm
  by_cases hdotted : c = dottedCapitalI
  · subst hdotted
    have hform : lowerForm dottedCapitalI = ['i', combiningDot] := rfl
    refine iff_of_false (fun h => ?_)
      fun h => not_standsFor_of_beyond (by decide) (by decide) hd h.1
    -- the dot would be the next letter of the word
    rw [hform, List.cons_append, List.singleton_append, List.cons.injEq] at h
    have hdot : IsPlainLetter combiningDot := hword _ (h.2 ▸ List.mem_cons_self)
    exact absurd hdot (by decide)
  · rw [lowerForm, if_neg hkelvin, if_neg hdotted, List.singleton_append, List.cons.injEq,
      standsFor_iff hd.2.1]

/-! ### A word -/

theorem lowerForm_ne_nil (c : Char) : lowerForm c ≠ [] := by
  unfold lowerForm
  split
  · simp
  · split <;> simp

theorem flatMap_lowerForm_eq_iff {cs word : List Char} (hword : ∀ d ∈ word, IsPlainLetter d) :
    cs.flatMap lowerForm = word ↔ List.Forall₂ StandsFor cs word := by
  induction cs generalizing word with
  | nil => simp [List.forall₂_nil_left_iff, eq_comm]
  | cons c cs ih =>
    rw [List.flatMap_cons]
    cases word with
    | nil => simp [lowerForm_ne_nil]
    | cons d word =>
      obtain ⟨hd, hrest⟩ := List.forall_mem_cons.mp hword
      rw [lowerForm_append_eq_iff hd hrest, List.forall₂_cons, ih hrest]

/-- **A text is a plain word in lower case exactly if it spells the word.** -/
theorem lowerCase_eq_iff {s word : String} (hword : IsPlainWord word) :
    lowerCase s = word ↔ Spells s word := by
  rw [Spells, ← flatMap_lowerForm_eq_iff hword, lowerCase, ← String.toList_inj,
    String.toList_ofList]

/-- A word spells itself. -/
theorem spells_self (word : String) : Spells word word :=
  List.forall₂_same.mpr fun _ _ => Or.inl rfl

/-- The sign of the kelvin is taken for a `k` that it does not spell: without the condition on words
the two comparisons differ. -/
example : lowerCase "\u212A" = "k" ∧ ¬Spells "\u212A" "k" := by decide +kernel

end Text

end ConfigSource
