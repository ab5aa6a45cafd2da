import ConfigSource.Settings.Load
import Mathlib.Tactic.Common

/-!
# Checking settings, key by key

The check of settings is three checks, one for each known key, and none of them looks at the value
of another key. The settings are accepted exactly if every key's value is
(`ConfigSource.Settings.check_eq_ok_iff`); otherwise the issues are those of the keys, one key after
the other (`ConfigSource.Settings.issues_of_check`), each about the key that it comes from
(`ConfigSource.SettingKey.key?_of_mem_issues`). So the keys that a rejection names are those with
an issue of their own (`ConfigSource.mem_offendingKeys_check`).

The one check that can fail without an issue is that of the origin description, which may ask a
value for its length (`ConfigSource.Settings.check_eq_failed_iff`). It fails exactly if that length
has no text (`ConfigSource.checkOrigin_eq_failed_iff`).
-/

namespace ConfigSource

theorem Refusal.mem_issuesOf {α : Type} {outcome : Except Refusal α} {i : Issue} :
    i ∈ issuesOf outcome ↔ ∃ broken, outcome = .error (.issues broken) ∧ i ∈ broken := by
  unfold issuesOf
  split
  · simp
  · next h =>
    simp only [List.not_mem_nil, false_iff, not_exists, not_and]
    exact fun broken hb _ => h broken hb

namespace SettingKey

/-- The issues of the value under a key. -/
def issues : SettingKey → Value → List Issue
  | dialect, v => Refusal.issuesOf (checkDialect v)
  | origin, v => Refusal.issuesOf (checkOrigin v)
  | allowMissing, v => Refusal.issuesOf (checkAllowMissing v)

theorem mem_all (k : SettingKey) : k ∈ all := by
  cases k <;> simp [all]

theorem name_injective : Function.Injective name := by
  intro k k' h
  cases k <;> cases k' <;> first | rfl | exact absurd h (by decide)

theorem isKnown_iff {key : String} : isKnown key = true ↔ ∃ k : SettingKey, k.name = key := by
  simp only [isKnown, List.any_eq_true, beq_iff_eq]
  exact ⟨fun ⟨k, _, h⟩ => ⟨k, h⟩, fun ⟨k, h⟩ => ⟨k, mem_all k, h⟩⟩

@[simp] theorem isKnown_name (k : SettingKey) : isKnown k.name = true := isKnown_iff.mpr ⟨k, rfl⟩

/-- What is asked for a length gives issues about the origin description only. -/
theorem key?_of_mem_originLength {v : Value} {broken : List Issue} {i : Issue}
    (h : originLength v = .ok broken) (hi : i ∈ broken) : i.key? = some origin := by
  unfold originLength at h
  split at h
  · obtain rfl : [Issue.emptyOrigin .list] = broken := Except.ok.inj h
    obtain rfl := List.mem_singleton.mp hi
    rfl
  · next members =>
    split at h
    · next length _ =>
      cases hs : isShortLength length with
      | error e => simp [hs, Except.map] at h
      | ok short =>
        cases short with
        | true =>
          have hb : [Issue.emptyOrigin .record] = broken := by simpa [hs, Except.map] using h
          rw [← hb, List.mem_singleton] at hi
          rw [hi]
          rfl
        | false =>
          have hb : [] = broken := by simpa [hs, Except.map] using h
          simp [← hb] at hi
    · obtain rfl : [] = broken := Except.ok.inj h
      simp at hi
  · obtain rfl : [] = broken := Except.ok.inj h
    simp at hi

theorem key?_of_checkDialect {v : Value} {broken : List Issue} {i : Issue}
    (h : checkDialect v = .error (.issues broken)) (hi : i ∈ broken) : i.key? = some dialect := by
  unfold checkDialect at h
  split at h
  · cases h
  · split at h
    · cases h
    · obtain rfl := Refusal.issues.inj (Except.error.inj h)
      obtain rfl := List.mem_singleton.mp hi
      rfl
  · obtain rfl := Refusal.issues.inj (Except.error.inj h)
    obtain rfl := List.mem_singleton.mp hi
    rfl

theorem key?_of_checkOrigin {v : Value} {broken : List Issue} {i : Issue}
    (h : checkOrigin v = .error (.issues broken)) (hi : i ∈ broken) : i.key? = some origin := by
  unfold checkOrigin at h
  split at h
  · cases h
  · split at h
    · obtain rfl := Refusal.issues.inj (Except.error.inj h)
      obtain rfl := List.mem_singleton.mp hi
      rfl
    · cases h
  · split at h
    · next more hmore =>
      obtain rfl := Refusal.issues.inj (Except.error.inj h)
      rcases List.mem_cons.mp hi with rfl | hi
      · rfl
      · exact key?_of_mem_originLength hmore hi
    · cases h

theorem key?_of_checkAllowMissing {v : Value} {broken : List Issue} {i : Issue}
    (h : checkAllowMissing v = .error (.issues broken)) (hi : i ∈ broken) :
    i.key? = some allowMissing := by
  unfold checkAllowMissing at h
  split at h
  · cases h
  · cases h
  · split at h
    · cases h
    · obtain rfl := Refusal.issues.inj (Except.error.inj h)
      obtain rfl := List.mem_singleton.mp hi
      rfl
  · obtain rfl := Refusal.issues.inj (Except.error.inj h)
    obtain rfl := List.mem_singleton.mp hi
    rfl

/-- **Every issue is about the key that it comes from.** -/
theorem key?_of_mem_issues {k : SettingKey} {v : Value} {i : Issue} (h : i ∈ k.issues v) :
    i.key? = some k := by
  cases k with
  | dialect =>
    obtain ⟨broken, hb, hi⟩ := Refusal.mem_issuesOf.mp h
    exact key?_of_checkDialect hb hi
  | origin =>
    obtain ⟨broken, hb, hi⟩ := Refusal.mem_issuesOf.mp h
    exact key?_of_checkOrigin hb hi
  | allowMissing =>
    obtain ⟨broken, hb, hi⟩ := Refusal.mem_issuesOf.mp h
    exact key?_of_checkAllowMissing hb hi

@[simp] theorem issues_undefined (k : SettingKey) : k.issues .undefined = [] := by
  cases k <;> rfl

end SettingKey

theorem Value.eq_undefined_of_isUndefined {v : Value} (h : v.isUndefined = true) :
    v = .undefined := by
  cases v <;> first | rfl | simp [Value.isUndefined] at h

/-! ### The values that are checked -/

/-- A dialect is missing exactly if its value is. -/
theorem isNone_of_checkDialect {v : Value} {d : Option Dialect} (h : checkDialect v = .ok d) :
    d.isNone = v.isUndefined := by
  unfold checkDialect at h
  split at h
  · obtain rfl := Except.ok.inj h
    rfl
  · split at h
    · obtain rfl := Except.ok.inj h
      rfl
    · cases h
  · cases h

/-- An origin description is missing exactly if its value is. -/
theorem isNone_of_checkOrigin {v : Value} {o : Option String} (h : checkOrigin v = .ok o) :
    o.isNone = v.isUndefined := by
  unfold checkOrigin at h
  split at h
  · obtain rfl := Except.ok.inj h
    rfl
  · split at h
    · cases h
    · obtain rfl := Except.ok.inj h
      rfl
  · split at h <;> cases h

/-- The toleration of missing sources is missing exactly if its value is. -/
theorem isNone_of_checkAllowMissing {v : Value} {a : Option Bool}
    (h : checkAllowMissing v = .ok a) : a.isNone = v.isUndefined := by
  unfold checkAllowMissing at h
  split at h
  · obtain rfl := Except.ok.inj h
    rfl
  · obtain rfl := Except.ok.inj h
    rfl
  · split at h
    · obtain rfl := Except.ok.inj h
      rfl
    · cases h
  · cases h

/-- **A length that cannot be read**: a record has a member for it that has no text. -/
def Value.HasUnreadableLength (v : Value) : Prop :=
  ∃ members length, v = .record members ∧ Table.get? members "length" = some length ∧
    length.display = none

/-- A length is not read for one reason only: it has no text. -/
theorem isShortLength_eq_error_iff {v e : Value} :
    isShortLength v = .error e ↔ v.display = none ∧ e = .withoutText := by
  have htext : v.textOf.map (fun s => !(Numeral.ofText s).isAtLeastOne) = .error e ↔
      v.display = none ∧ e = .withoutText := by
    unfold Value.textOf
    cases v.display with
    | none => simp [Except.map, eq_comm]
    | some s => simp [Except.map]
  unfold isShortLength
  split
  · simp [Value.display]
  · simp [Value.display]
  · simp [Value.display]
  · exact htext

theorem originLength_eq_error_iff {v e : Value} :
    originLength v = .error e ↔ v.HasUnreadableLength ∧ e = .withoutText := by
  unfold originLength
  split
  · simp [Value.HasUnreadableLength]
  · next members =>
    cases hget : Table.get? members "length" with
    | none => simp [Value.HasUnreadableLength, hget]
    | some length =>
      have hshort : (isShortLength length).map (fun short =>
          if short then [Issue.emptyOrigin .record] else []) = .error e ↔
            isShortLength length = .error e := by
        cases isShortLength length <;> simp [Except.map]
      simp only [hshort, isShortLength_eq_error_iff]
      simp [Value.HasUnreadableLength, hget]
  · next hrecord =>
    refine iff_of_false (by simp) ?_
    rintro ⟨⟨members, length, rfl, -, -⟩, -⟩
    exact hrecord members rfl

/-- **The check of an origin description fails exactly if a length has no text.** -/
theorem checkOrigin_eq_failed_iff {v e : Value} :
    checkOrigin v = .error (.failed e) ↔ v.HasUnreadableLength ∧ e = .withoutText := by
  rw [← originLength_eq_error_iff]
  unfold checkOrigin
  split
  · simp [originLength]
  · split <;> simp [originLength]
  · cases originLength _ <;> simp

theorem eq_withoutText_of_checkOrigin {v e : Value} (h : checkOrigin v = .error (.failed e)) :
    e = .withoutText := (checkOrigin_eq_failed_iff.mp h).2

/-! ### The check as a whole -/

namespace Settings

/-- The check looks at the known keys only. -/
theorem check_congr {look look' : String → Value}
    (h : ∀ k : SettingKey, look k.name = look' k.name) : check look = check look' := by
  simp only [check, h]

/-- **Settings are accepted exactly if the value of every key is.** -/
theorem check_eq_ok_iff {look : String → Value} {s : Settings} :
    check look = .ok s ↔
      checkDialect (look SettingKey.dialect.name) = .ok s.dialect ∧
        checkOrigin (look SettingKey.origin.name) = .ok s.origin ∧
        checkAllowMissing (look SettingKey.allowMissing.name) = .ok s.allowMissing := by
  unfold check combine
  constructor
  · intro h
    split at h
    · next hd ho ha =>
      obtain rfl := Except.ok.inj h
      exact ⟨hd, ho, ha⟩
    · cases h
    · cases h
  · rintro ⟨hd, ho, ha⟩
    rw [hd, ho, ha]

/-- Whether settings have a value for a key. -/
def gives (s : Settings) : SettingKey → Bool
  | .dialect => s.dialect.isSome
  | .origin => s.origin.isSome
  | .allowMissing => s.allowMissing.isSome

/-- **Accepted settings have a value for the keys that had one.** -/
theorem gives_of_check {look : String → Value} {s : Settings} (h : check look = .ok s)
    (k : SettingKey) : s.gives k = !(look k.name).isUndefined := by
  obtain ⟨hd, ho, ha⟩ := check_eq_ok_iff.mp h
  cases k with
  | dialect => rw [gives, ← isNone_of_checkDialect hd, Option.not_isNone]
  | origin => rw [gives, ← isNone_of_checkOrigin ho, Option.not_isNone]
  | allowMissing => rw [gives, ← isNone_of_checkAllowMissing ha, Option.not_isNone]

/-- **The check fails exactly if that of the origin description does.** -/
theorem check_eq_failed_iff {look : String → Value} {e : Value} :
    check look = .error (.failed e) ↔
      checkOrigin (look SettingKey.origin.name) = .error (.failed e) := by
  unfold check combine
  constructor
  · intro h
    split at h
    · cases h
    · next e' ho =>
      obtain rfl : e' = e := by simpa using h
      exact ho
    · cases h
  · intro ho
    rw [ho]
    cases checkDialect (look SettingKey.dialect.name) <;> rfl

/-- **The issues of settings are those of their keys**, one key after the other. -/
theorem issues_of_check {look : String → Value} {broken : List Issue}
    (h : check look = .error (.issues broken)) :
    broken = SettingKey.all.flatMap fun k => k.issues (look k.name) := by
  unfold check combine at h
  split at h
  · cases h
  · cases h
  · have hb := Refusal.issues.inj (Except.error.inj h)
    simp [SettingKey.all, SettingKey.issues, ← hb]

end Settings

/-- **A rejection names the keys that have an issue of their own.** -/
theorem mem_offendingKeys_check {look : String → Value} {broken : List Issue}
    (h : Settings.check look = .error (.issues broken)) (k : SettingKey) :
    k.name ∈ offendingKeys broken ↔ k.issues (look k.name) ≠ [] := by
  rw [Settings.issues_of_check h, offendingKeys, List.mem_eraseDups]
  simp only [List.mem_map, List.mem_filterMap, List.mem_flatMap]
  constructor
  · rintro ⟨k', ⟨i, ⟨k'', -, hi⟩, hkey⟩, hname⟩
    obtain rfl := SettingKey.name_injective hname
    have hk : k'' = k' := by simpa [SettingKey.key?_of_mem_issues hi] using hkey
    rw [hk] at hi
    exact List.ne_nil_of_mem hi
  · intro hne
    obtain ⟨i, hi⟩ := List.exists_mem_of_ne_nil _ hne
    exact ⟨k, ⟨i, ⟨k, SettingKey.mem_all k, hi⟩, SettingKey.key?_of_mem_issues hi⟩, rfl⟩

/-- A rejection names nothing but known keys. -/
theorem isKnown_of_mem_offendingKeys {broken : List Issue} {key : String}
    (h : key ∈ offendingKeys broken) : SettingKey.isKnown key = true := by
  rw [offendingKeys, List.mem_eraseDups] at h
  obtain ⟨k, -, rfl⟩ := List.mem_map.mp h
  exact SettingKey.isKnown_name k

end ConfigSource
