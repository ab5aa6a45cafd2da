import ConfigSource.Proofs.Settings.Check
import ConfigSource.Proofs.Text.Spelling

/-!
# The rules of settings

Each setting has a **rule**: the values that it allows (`ConfigSource.SettingKey.Allows`). A dialect
is named and a truth value is said by words, in letters of either case; an origin description is any
text but the empty one; and all of them may be missing.

The checks are held against the rules. Settings are accepted exactly if all their values are allowed
(`ConfigSource.Settings.exists_check_iff`), and otherwise the keys that have an issue are those
whose values are not allowed (`ConfigSource.Settings.check_of_not_allowed`). The latter takes that
the check does not fail, which it does where a length is asked for that cannot be read.

The check compares lower cases, and those of all alphabets. It agrees with the rules because the
words of the rules are plain in the sense of `ConfigSource.Text.IsPlainWord`.
-/

namespace ConfigSource

/-! ### The rules -/

/-- The words that stand for a truth value. -/
def truthWords : Bool → List String
  | true => ["true", "1"]
  | false => ["false", "0"]

/-- The value **names** a dialect: it is a text that spells its name. -/
def Value.Names (v : Value) (d : Dialect) : Prop := ∃ s, v = .text s ∧ Text.Spells s d.name

/-- The value **describes** an origin: it is that text, which is not empty. -/
def Value.Describes (v : Value) (s : String) : Prop := v = .text s ∧ s ≠ ""

/-- The value **says** a truth value: it is that, or a text that spells a word for it. -/
def Value.Says (v : Value) (b : Bool) : Prop :=
  v = .bool b ∨ ∃ s, v = .text s ∧ ∃ word ∈ truthWords b, Text.Spells s word

/-- **The rule of a setting**: the values that it allows. A missing value is allowed everywhere. -/
def SettingKey.Allows : SettingKey → Value → Prop
  | dialect, v => v = .undefined ∨ ∃ d, v.Names d
  | origin, v => v = .undefined ∨ ∃ s, v.Describes s
  | allowMissing, v => v = .undefined ∨ ∃ b, v.Says b

/-! ### Words -/

theorem Dialect.isPlainWord_name (d : Dialect) : Text.IsPlainWord d.name := by
  cases d <;> decide

/-- **A name in lower case is found exactly if the text spells it.** -/
theorem Dialect.ofName?_lowerCase_iff {s : String} {d : Dialect} :
    ofName? (Text.lowerCase s) = some d ↔ Text.Spells s d.name := by
  rw [← Text.lowerCase_eq_iff d.isPlainWord_name]
  constructor
  · intro h
    unfold ofName? at h
    have hfound := List.find?_some h
    exact (eq_of_beq hfound).symm
  · intro h
    rw [h, ofName?_name]

theorem isPlainWord_of_mem_truthWords {b : Bool} {word : String} (h : word ∈ truthWords b) :
    Text.IsPlainWord word := by
  have hall : ∀ b, ∀ word ∈ truthWords b, Text.IsPlainWord word := by decide
  exact hall b word h

theorem booleanWord?_eq_some_iff {word : String} {b : Bool} :
    booleanWord? word = some b ↔ word ∈ truthWords b := by
  unfold booleanWord?
  split
  · next htrue => rcases htrue with rfl | rfl <;> cases b <;> decide
  · next htrue =>
    split
    · next hfalse => rcases hfalse with rfl | rfl <;> cases b <;> decide
    · next hfalse =>
      refine iff_of_false (by simp) fun h => ?_
      cases b with
      | true => exact htrue (by simpa [truthWords] using h)
      | false => exact hfalse (by simpa [truthWords] using h)

/-- **A word in lower case stands for a truth value exactly if the text says it.** -/
theorem booleanWord?_lowerCase_iff {s : String} {b : Bool} :
    booleanWord? (Text.lowerCase s) = some b ↔ (Value.text s).Says b := by
  rw [booleanWord?_eq_some_iff]
  constructor
  · intro h
    exact Or.inr ⟨s, rfl, _, h, (Text.lowerCase_eq_iff (isPlainWord_of_mem_truthWords h)).mp rfl⟩
  · rintro (h | ⟨s', hs, word, hword, hspells⟩)
    · cases h
    · obtain rfl := Value.text.inj hs
      rwa [(Text.lowerCase_eq_iff (isPlainWord_of_mem_truthWords hword)).mpr hspells]

/-- Nothing says two truth values. -/
theorem Value.Says.unique {v : Value} {b b' : Bool} (h : v.Says b) (h' : v.Says b') : b = b' := by
  rcases h with rfl | ⟨s, rfl, hwords⟩
  · rcases h' with h' | ⟨s, hs, -⟩
    · exact Value.bool.inj h'
    · cases hs
  · have hword := booleanWord?_lowerCase_iff.mpr (Or.inr ⟨s, rfl, hwords⟩ : (Value.text s).Says b)
    rw [booleanWord?_lowerCase_iff.mpr h'] at hword
    exact (Option.some.inj hword).symm

/-! ### The check of one setting -/

theorem checkDialect_eq_ok_iff {v : Value} {o : Option Dialect} :
    checkDialect v = .ok o ↔ (v = .undefined ∧ o = none) ∨ ∃ d, v.Names d ∧ o = some d := by
  unfold checkDialect
  split
  · simp [eq_comm, Value.Names]
  · next s =>
    simp only [Value.Names, ← Dialect.ofName?_lowerCase_iff, Value.text.injEq, exists_eq_left',
      reduceCtorEq, false_and, false_or]
    cases Dialect.ofName? (Text.lowerCase s) <;> simp [eq_comm]
  · next hundefined htext =>
    refine iff_of_false (by simp) ?_
    rintro (⟨rfl, -⟩ | ⟨d, ⟨s, rfl, -⟩, -⟩)
    · exact hundefined rfl
    · exact htext s rfl

theorem checkOrigin_eq_ok_iff {v : Value} {o : Option String} :
    checkOrigin v = .ok o ↔ (v = .undefined ∧ o = none) ∨ ∃ s, v.Describes s ∧ o = some s := by
  unfold checkOrigin
  split
  · simp [eq_comm, Value.Describes]
  · next s =>
    by_cases hs : s = ""
    · subst hs
      refine iff_of_false (by simp) ?_
      rintro (⟨h, -⟩ | ⟨s, ⟨h, hne⟩, -⟩)
      · cases h
      · exact hne (Value.text.inj h).symm
    · simp [hs, Value.Describes, eq_comm (a := o)]
  · next hundefined htext =>
    refine iff_of_false (by split <;> simp) ?_
    rintro (⟨rfl, -⟩ | ⟨s, ⟨rfl, -⟩, -⟩)
    · exact hundefined rfl
    · exact htext s rfl

theorem checkAllowMissing_eq_ok_iff {v : Value} {o : Option Bool} :
    checkAllowMissing v = .ok o ↔ (v = .undefined ∧ o = none) ∨ ∃ b, v.Says b ∧ o = some b := by
  unfold checkAllowMissing
  split
  · simp [eq_comm, Value.Says]
  · next b => simp [eq_comm, Value.Says]
  · next s =>
    simp only [← booleanWord?_lowerCase_iff]
    cases booleanWord? (Text.lowerCase s) <;> simp [eq_comm]
  · next hundefined hbool htext =>
    refine iff_of_false (by simp) ?_
    rintro (⟨rfl, -⟩ | ⟨b, rfl | ⟨s, rfl, -⟩, -⟩)
    · exact hundefined rfl
    · exact hbool b rfl
    · exact htext s rfl

section Accepted

variable {α : Type} {outcome : Except Refusal (Option α)} {missing : Prop} {StandsFor : α → Prop}
  (h : ∀ o, outcome = .ok o ↔ (missing ∧ o = none) ∨ ∃ a, StandsFor a ∧ o = some a)

include h

/-- What is accepted is missing, or stands for something. -/
theorem exists_ok_iff : (∃ o, outcome = .ok o) ↔ missing ∨ ∃ a, StandsFor a := by
  simp only [h]
  constructor
  · rintro ⟨o, ⟨hmissing, -⟩ | ⟨a, ha, -⟩⟩
    · exact Or.inl hmissing
    · exact Or.inr ⟨a, ha⟩
  · rintro (hmissing | ⟨a, ha⟩)
    · exact ⟨none, Or.inl ⟨hmissing, rfl⟩⟩
    · exact ⟨some a, Or.inr ⟨a, ha, rfl⟩⟩

/-- What it gives it stands for. -/
theorem ok_some_iff {a : α} : outcome = .ok (some a) ↔ StandsFor a := by
  simp [h]

end Accepted

theorem checkDialect_eq_some_iff {v : Value} {d : Dialect} :
    checkDialect v = .ok (some d) ↔ v.Names d :=
  ok_some_iff fun _ => checkDialect_eq_ok_iff

theorem checkOrigin_eq_some_iff {v : Value} {s : String} :
    checkOrigin v = .ok (some s) ↔ v.Describes s :=
  ok_some_iff fun _ => checkOrigin_eq_ok_iff

theorem checkAllowMissing_eq_some_iff {v : Value} {b : Bool} :
    checkAllowMissing v = .ok (some b) ↔ v.Says b :=
  ok_some_iff fun _ => checkAllowMissing_eq_ok_iff

theorem isOk_iff {ε α : Type} {outcome : Except ε α} :
    outcome.isOk = true ↔ ∃ a, outcome = .ok a := by
  cases outcome <;> simp [Except.isOk, Except.toBool]

/-! ### Refusals of one setting -/

theorem refusal_of_checkDialect {v : Value} {refusal : Refusal}
    (h : checkDialect v = .error refusal) : ∃ i, refusal = .issues [i] := by
  unfold checkDialect at h
  split at h
  · cases h
  · split at h
    · cases h
    · exact ⟨_, (Except.error.inj h).symm⟩
  · exact ⟨_, (Except.error.inj h).symm⟩

theorem refusal_of_checkAllowMissing {v : Value} {refusal : Refusal}
    (h : checkAllowMissing v = .error refusal) : ∃ i, refusal = .issues [i] := by
  unfold checkAllowMissing at h
  split at h
  · cases h
  · cases h
  · split at h
    · cases h
    · exact ⟨_, (Except.error.inj h).symm⟩
  · exact ⟨_, (Except.error.inj h).symm⟩

theorem refusal_of_checkOrigin {v : Value} {refusal : Refusal}
    (h : checkOrigin v = .error refusal) :
    (∃ e, refusal = .failed e) ∨ ∃ i more, refusal = .issues (i :: more) := by
  unfold checkOrigin at h
  split at h
  · cases h
  · split at h
    · exact Or.inr ⟨_, _, (Except.error.inj h).symm⟩
    · cases h
  · split at h
    · exact Or.inr ⟨_, _, (Except.error.inj h).symm⟩
    · exact Or.inl ⟨_, (Except.error.inj h).symm⟩

namespace SettingKey

theorem allows_dialect_iff {v : Value} : dialect.Allows v ↔ ∃ o, checkDialect v = .ok o :=
  (exists_ok_iff fun _ => checkDialect_eq_ok_iff).symm

theorem allows_origin_iff {v : Value} : origin.Allows v ↔ ∃ o, checkOrigin v = .ok o :=
  (exists_ok_iff fun _ => checkOrigin_eq_ok_iff).symm

theorem allows_allowMissing_iff {v : Value} :
    allowMissing.Allows v ↔ ∃ o, checkAllowMissing v = .ok o :=
  (exists_ok_iff fun _ => checkAllowMissing_eq_ok_iff).symm

/-- The checks decide the rules. -/
instance (k : SettingKey) (v : Value) : Decidable (k.Allows v) :=
  match k with
  | dialect => decidable_of_iff _ (isOk_iff.trans allows_dialect_iff.symm)
  | origin => decidable_of_iff _ (isOk_iff.trans allows_origin_iff.symm)
  | allowMissing => decidable_of_iff _ (isOk_iff.trans allows_allowMissing_iff.symm)

/-- **A value has no issue exactly if the rule allows it**, or if its length cannot be read. -/
theorem issues_eq_nil_iff {k : SettingKey} {v : Value} :
    k.issues v = [] ↔ k.Allows v ∨ (k = origin ∧ v.HasUnreadableLength) := by
  cases k with
  | dialect =>
    rw [allows_dialect_iff, issues]
    cases h : checkDialect v with
    | ok o => simp [Refusal.issuesOf]
    | error refusal =>
      obtain ⟨i, rfl⟩ := refusal_of_checkDialect h
      simp [Refusal.issuesOf]
  | allowMissing =>
    rw [allows_allowMissing_iff, issues]
    cases h : checkAllowMissing v with
    | ok o => simp [Refusal.issuesOf]
    | error refusal =>
      obtain ⟨i, rfl⟩ := refusal_of_checkAllowMissing h
      simp [Refusal.issuesOf]
  | origin =>
    rw [allows_origin_iff, issues]
    cases h : checkOrigin v with
    | ok o => simp [Refusal.issuesOf]
    | error refusal =>
      rcases refusal_of_checkOrigin h with ⟨e, rfl⟩ | ⟨i, more, rfl⟩
      · simpa [Refusal.issuesOf] using (checkOrigin_eq_failed_iff.mp h).1
      · have hreadable : ¬v.HasUnreadableLength := fun hlength => by
          rw [checkOrigin_eq_failed_iff.mpr ⟨hlength, rfl⟩] at h
          cases h
        simp [Refusal.issuesOf, hreadable]

/-- What has a length that cannot be read is no origin description. -/
theorem not_allows_of_hasUnreadableLength {v : Value} (h : v.HasUnreadableLength) :
    ¬origin.Allows v := by
  obtain ⟨members, length, rfl, -⟩ := h
  rintro (h | ⟨s, h, -⟩) <;> cases h

end SettingKey

/-! ### The check of all settings -/

namespace Settings

variable {look : String → Value}

/-- **Settings are accepted exactly if the value of each is allowed.** -/
theorem exists_check_iff :
    (∃ s, check look = .ok s) ↔ ∀ k : SettingKey, k.Allows (look k.name) := by
  constructor
  · rintro ⟨s, h⟩ k
    obtain ⟨hd, ho, ha⟩ := check_eq_ok_iff.mp h
    cases k with
    | dialect => exact SettingKey.allows_dialect_iff.mpr ⟨_, hd⟩
    | origin => exact SettingKey.allows_origin_iff.mpr ⟨_, ho⟩
    | allowMissing => exact SettingKey.allows_allowMissing_iff.mpr ⟨_, ha⟩
  · intro h
    obtain ⟨d, hd⟩ := SettingKey.allows_dialect_iff.mp (h .dialect)
    obtain ⟨o, ho⟩ := SettingKey.allows_origin_iff.mp (h .origin)
    obtain ⟨a, ha⟩ := SettingKey.allows_allowMissing_iff.mp (h .allowMissing)
    exact ⟨⟨d, o, a⟩, check_eq_ok_iff.mpr ⟨hd, ho, ha⟩⟩

/-- **Settings that are not allowed are refused with issues**, if a length that is asked for can be
read; those of a key are issues exactly if its value is not allowed. -/
theorem check_of_not_allowed (hlength : ¬(look SettingKey.origin.name).HasUnreadableLength)
    (h : ∃ k : SettingKey, ¬k.Allows (look k.name)) :
    ∃ broken, check look = .error (.issues broken) ∧
      broken = SettingKey.all.flatMap (fun k => k.issues (look k.name)) ∧
        ∀ k : SettingKey, k.issues (look k.name) ≠ [] ↔ ¬k.Allows (look k.name) := by
  have hissues : ∀ k : SettingKey, k.issues (look k.name) ≠ [] ↔ ¬k.Allows (look k.name) := by
    intro k
    have hnot : ¬(k = .origin ∧ (look k.name).HasUnreadableLength) := by
      rintro ⟨rfl, hunreadable⟩
      exact hlength hunreadable
    rw [ne_eq, SettingKey.issues_eq_nil_iff, or_iff_left hnot]
  cases hcheck : check look with
  | ok s =>
    obtain ⟨k, hk⟩ := h
    exact absurd (exists_check_iff.mp ⟨s, hcheck⟩ k) hk
  | error refusal =>
    cases refusal with
    | failed e =>
      exact absurd (checkOrigin_eq_failed_iff.mp (check_eq_failed_iff.mp hcheck)).1 hlength
    | issues broken => exact ⟨broken, rfl, issues_of_check hcheck, hissues⟩

end Settings

end ConfigSource
