import ConfigSource.Proofs.Settings.Rules

/-!
# The grammar of settings

A value is in the **grammar** if it is a table all of whose settings have values that their rules
allow (`ConfigSource.Settings.InGrammar`). The check of a value should follow the grammar
(`ConfigSource.Settings.FollowsGrammar`):

* it accepts what is in the grammar and nothing else;
* what it accepts it **converts** (`ConfigSource.Settings.Converts`), to settings that are accepted
  as they are;
* all else is refused with issues, and those of a table are about the settings that are not allowed.

The last point has an exception. A table in place of an origin description is asked for its length,
and where the length has no text the check fails and has no issues to show. That is the only
exception (`ConfigSource.Settings.followsGrammar_iff`), and a length that is a table is an instance
of it (`ConfigSource.Settings.not_followsGrammar_of_nestedLength`).
-/

namespace ConfigSource

namespace Settings

variable {look : String → Value}

/-! ### Checked settings as a record -/

/-- What settings have under a key, as a value. -/
def valueOf (s : Settings) : SettingKey → Option Value
  | .dialect => s.dialect.map fun d => .text d.name
  | .origin => s.origin.map .text
  | .allowMissing => s.allowMissing.map .bool

theorem toRecord_eq (s : Settings) :
    s.toRecord = SettingKey.all.filterMap fun k => (s.valueOf k).map fun v => (k.name, v) := by
  obtain ⟨d, o, a⟩ := s
  cases d <;> cases o <;> cases a <;> rfl

theorem get?_toRecord (s : Settings) (k : SettingKey) :
    Table.get? s.toRecord k.name = s.valueOf k := by
  obtain ⟨d, o, a⟩ := s
  cases k <;> cases d <;> cases o <;> cases a <;> rfl

/-- **Settings are checked to be what they are**, if their origin description is not empty. -/
theorem check_valueOf {s : Settings} (h : s.origin ≠ some "") {look : String → Value}
    (hlook : ∀ k : SettingKey, look k.name = Value.ofOption (s.valueOf k)) : check look = .ok s := by
  refine check_eq_ok_iff.mpr ⟨?_, ?_, ?_⟩
  · rw [hlook, checkDialect_eq_ok_iff]
    cases hd : s.dialect with
    | none => exact Or.inl ⟨by simp [valueOf, hd, Value.ofOption], rfl⟩
    | some d =>
      exact Or.inr ⟨d, ⟨d.name, by simp [valueOf, hd, Value.ofOption], Text.spells_self _⟩, rfl⟩
  · rw [hlook, checkOrigin_eq_ok_iff]
    cases ho : s.origin with
    | none => exact Or.inl ⟨by simp [valueOf, ho, Value.ofOption], rfl⟩
    | some o =>
      refine Or.inr ⟨o, ⟨by simp [valueOf, ho, Value.ofOption], ?_⟩, rfl⟩
      rintro rfl
      exact h ho
  · rw [hlook, checkAllowMissing_eq_ok_iff]
    cases ha : s.allowMissing with
    | none => exact Or.inl ⟨by simp [valueOf, ha, Value.ofOption], rfl⟩
    | some a => exact Or.inr ⟨a, Or.inl (by simp [valueOf, ha, Value.ofOption]), rfl⟩

/-- An origin description that was accepted is not empty. -/
theorem origin_ne_empty {s : Settings} (h : check look = .ok s) : s.origin ≠ some "" := by
  intro hempty
  have horigin := (check_eq_ok_iff.mp h).2.1
  rw [hempty] at horigin
  exact (checkOrigin_eq_some_iff.mp horigin).2 rfl

end Settings

/-! ### The check of any value -/

/-- Whether a value is a table of members: a record, or an error, which has no known key. -/
def Value.isTable : Value → Bool
  | .record _ => true
  | v => v.isError

namespace Settings

theorem ofValue_of_isTable {v : Value} (h : v.isTable = true) : ofValue v = check v.member := by
  cases v with
  | record members =>
    rw [ofValue]
    refine check_congr fun k => ?_
    cases hget : Table.get? members k.name <;> simp [Value.member, Value.ofOption, hget]
  | configError head context cause => rfl
  | plainError name message cause => rfl
  | aggregateError message errors cause => rfl
  | _ => cases h

theorem ofValue_of_not_isTable {v : Value} (h : v.isTable = false) :
    ofValue v = .error (.issues [.notRecord v.kind]) := by
  cases v <;> first | rfl | cases h

/-! ### What is asked of the check -/

/-- **The grammar**: a table, in which every known key has a value that its rule allows. -/
def InGrammar (v : Value) : Prop :=
  v.isTable = true ∧ ∀ k : SettingKey, k.Allows (v.member k.name)

/-- What the value of a setting is converted to. -/
def Becomes : SettingKey → Value → Value → Prop
  | .dialect, v, w => ∃ d, v.Names d ∧ w = .text d.name ∧ w.isDialectName = true
  | .origin, v, w => w = v
  | .allowMissing, v, w => ∃ b, w = .bool b ∧ ∀ b', v.Says b' ↔ b' = b

/-- **What a table is converted to**: the known keys that it gives a value, in order, and no others,
each with the value that its own becomes. -/
structure Converts (v : Value) (data : Table Value) : Prop where
  /-- The keys are those that have a value. -/
  keys : data.keys
    = (SettingKey.all.filter fun k => !(v.member k.name).isUndefined).map SettingKey.name
  /-- The values are those that are given, converted. -/
  values : ∀ (k : SettingKey) (w : Value),
    Table.get? data k.name = some w → w.isUndefined = false ∧ Becomes k (v.member k.name) w

/-- **The check follows the grammar** at a value. -/
structure FollowsGrammar (v : Value) : Prop where
  /-- What is in the grammar is accepted, and nothing else. -/
  accepts : (∃ s, ofValue v = .ok s) ↔ InGrammar v
  /-- What is accepted is converted. -/
  converts : ∀ s, ofValue v = .ok s → Converts v s.toRecord
  /-- What was converted is accepted as it is. -/
  settled : ∀ s, ofValue v = .ok s → ofValue (.record s.toRecord) = .ok s
  /-- All else is refused with issues; those of a table have the paths of the keys whose values are
  not allowed. -/
  refuses : ¬InGrammar v → ∃ broken, ofValue v = .error (.issues broken) ∧ broken ≠ [] ∧
    (v.isTable = true → ∀ path, path ∈ broken.map Issue.path ↔
      ∃ k : SettingKey, path = [k.name] ∧ ¬k.Allows (v.member k.name))

/-! ### The check against the grammar -/

theorem exists_ofValue_iff {v : Value} : (∃ s, ofValue v = .ok s) ↔ InGrammar v := by
  cases hv : v.isTable with
  | true => simp only [ofValue_of_isTable hv, exists_check_iff, InGrammar, hv, true_and]
  | false => simp [ofValue_of_not_isTable hv, InGrammar, hv]

/-- Accepted settings are those of a table. -/
theorem check_of_ofValue {v : Value} {s : Settings} (h : ofValue v = .ok s) :
    check v.member = .ok s := by
  rw [← ofValue_of_isTable (exists_ofValue_iff.mp ⟨s, h⟩).1, h]

theorem isSome_valueOf (s : Settings) (k : SettingKey) : (s.valueOf k).isSome = s.gives k := by
  cases k <;> simp [valueOf, gives]

theorem becomes_of_check {s : Settings} (h : check look = .ok s) {k : SettingKey} {w : Value}
    (hw : s.valueOf k = some w) : Becomes k (look k.name) w := by
  obtain ⟨hd, ho, ha⟩ := check_eq_ok_iff.mp h
  cases k with
  | dialect =>
    obtain ⟨d, hsome, rfl⟩ := Option.map_eq_some_iff.mp hw
    rw [hsome] at hd
    exact ⟨d, checkDialect_eq_some_iff.mp hd, rfl, by simp [Value.isDialectName]⟩
  | origin =>
    obtain ⟨o, hsome, rfl⟩ := Option.map_eq_some_iff.mp hw
    rw [hsome] at ho
    exact (checkOrigin_eq_some_iff.mp ho).1.symm
  | allowMissing =>
    obtain ⟨b, hsome, rfl⟩ := Option.map_eq_some_iff.mp hw
    rw [hsome] at ha
    have hsays := checkAllowMissing_eq_some_iff.mp ha
    exact ⟨b, rfl, fun b' => ⟨fun hb' => hb'.unique hsays, fun hb' => hb' ▸ hsays⟩⟩

theorem converts_of_ofValue {v : Value} {s : Settings} (h : ofValue v = .ok s) :
    Converts v s.toRecord := by
  have hcheck := check_of_ofValue h
  constructor
  · have hgives : ∀ k : SettingKey, (s.valueOf k).isSome = !(v.member k.name).isUndefined := by
      intro k
      rw [isSome_valueOf, gives_of_check hcheck k]
    rw [toRecord_eq, Table.keys, List.map_filterMap]
    simp only [← hgives, Option.map_map]
    rw [← List.filterMap_eq_map, List.filterMap_filter]
    refine List.filterMap_congr fun k _ => ?_
    cases s.valueOf k <;> rfl
  · intro k w hw
    rw [get?_toRecord] at hw
    refine ⟨?_, becomes_of_check hcheck hw⟩
    cases k <;> (obtain ⟨a, -, rfl⟩ := Option.map_eq_some_iff.mp hw; rfl)

theorem ofValue_toRecord {v : Value} {s : Settings} (h : ofValue v = .ok s) :
    ofValue (.record s.toRecord) = .ok s := by
  rw [ofValue_of_isTable rfl]
  refine check_valueOf (origin_ne_empty (check_of_ofValue h)) fun k => ?_
  rw [← get?_toRecord]
  cases hget : Table.get? s.toRecord k.name <;> simp [Value.member, Value.ofOption, hget]

theorem ofValue_of_hasUnreadableLength {v : Value}
    (h : (v.member SettingKey.origin.name).HasUnreadableLength) :
    ofValue v = .error (.failed .withoutText) := by
  have hv : v.isTable = true := by
    obtain ⟨members, length, hmember, -⟩ := h
    cases v with
    | record _ => rfl
    | _ => cases hmember
  rw [ofValue_of_isTable hv]
  exact check_eq_failed_iff.mpr (checkOrigin_eq_failed_iff.mpr ⟨h, rfl⟩)

/-- **Where no length can be read, there are no issues**: the check does not follow the grammar. -/
theorem not_followsGrammar {v : Value}
    (h : (v.member SettingKey.origin.name).HasUnreadableLength) : ¬FollowsGrammar v := by
  intro hfollows
  have hnot : ¬InGrammar v := fun hin =>
    SettingKey.not_allows_of_hasUnreadableLength h (hin.2 .origin)
  obtain ⟨broken, hbroken, -⟩ := hfollows.refuses hnot
  rw [ofValue_of_hasUnreadableLength h] at hbroken
  cases hbroken

/-- The paths of the issues of several keys. -/
theorem mem_paths_iff {look : String → Value} {path : List String} :
    path ∈ (SettingKey.all.flatMap fun k => k.issues (look k.name)).map Issue.path ↔
      ∃ k : SettingKey, path = [k.name] ∧ k.issues (look k.name) ≠ [] := by
  have hpath : ∀ {k : SettingKey} {v : Value} {i : Issue}, i ∈ k.issues v → i.path = [k.name] := by
    intro k v i hi
    simp [Issue.path, SettingKey.key?_of_mem_issues hi]
  simp only [List.mem_map, List.mem_flatMap]
  constructor
  · rintro ⟨i, ⟨k, -, hi⟩, rfl⟩
    exact ⟨k, hpath hi, List.ne_nil_of_mem hi⟩
  · rintro ⟨k, rfl, hne⟩
    obtain ⟨i, hi⟩ := List.exists_mem_of_ne_nil _ hne
    exact ⟨i, ⟨k, SettingKey.mem_all k, hi⟩, hpath hi⟩

theorem refuses_of_not_inGrammar {v : Value}
    (hlength : ¬(v.member SettingKey.origin.name).HasUnreadableLength) (hnot : ¬InGrammar v) :
    ∃ broken, ofValue v = .error (.issues broken) ∧ broken ≠ [] ∧
      (v.isTable = true → ∀ path, path ∈ broken.map Issue.path ↔
        ∃ k : SettingKey, path = [k.name] ∧ ¬k.Allows (v.member k.name)) := by
  cases hv : v.isTable with
  | false => exact ⟨_, ofValue_of_not_isTable hv, by simp, by simp⟩
  | true =>
    have hoffends : ∃ k : SettingKey, ¬k.Allows (v.member k.name) := by
      by_contra hnone
      exact hnot ⟨hv, not_exists_not.mp hnone⟩
    obtain ⟨broken, hcheck, rfl, hissues⟩ := check_of_not_allowed hlength hoffends
    refine ⟨_, by rw [ofValue_of_isTable hv, hcheck], ?_, fun _ path => ?_⟩
    · obtain ⟨k, hk⟩ := hoffends
      obtain ⟨i, hi⟩ := List.exists_mem_of_ne_nil _ ((hissues k).mpr hk)
      exact List.ne_nil_of_mem (List.mem_flatMap.mpr ⟨k, SettingKey.mem_all k, hi⟩)
    · rw [mem_paths_iff]
      exact exists_congr fun k => and_congr_right fun _ => hissues k

/-- **The check follows the grammar exactly where no length is asked for that cannot be read.**
Where one is, the check fails: nothing is accepted, and there are no issues. -/
theorem followsGrammar_iff (v : Value) :
    (FollowsGrammar v ↔ ¬(v.member SettingKey.origin.name).HasUnreadableLength) ∧
      ((v.member SettingKey.origin.name).HasUnreadableLength →
        ofValue v = .error (.failed .withoutText)) := by
  refine ⟨⟨fun hfollows h => not_followsGrammar h hfollows, fun hlength => ?_⟩,
    ofValue_of_hasUnreadableLength⟩
  exact ⟨exists_ofValue_iff, fun s => converts_of_ofValue, fun s => ofValue_toRecord,
    refuses_of_not_inGrammar hlength⟩

/-- **A length that is a table** with a member where its text is made. -/
theorem not_followsGrammar_of_nestedLength :
    ¬FollowsGrammar (.record
      [("ORIGIN", .record [("length", .record [("toString", .number (.ofInt 1))])])]) :=
  not_followsGrammar ⟨_, _, rfl, rfl, rfl⟩

/-- Letters of either case, and a setting that is there without a value. -/
example : (ofValue (.record [("SYNTAX", .text "JSon"), ("ORIGIN", .undefined),
      ("ALLOW_MISSING", .text "TRUE")])).toOption = some ⟨some .json, none, some true⟩ := by
  decide +kernel

end Settings

end ConfigSource
