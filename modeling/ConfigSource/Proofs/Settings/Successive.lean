import ConfigSource.Proofs.Settings.Outcome

/-!
# Loading in one go and one after the other

Sources can be loaded over a base in one go, or the first of them over the base and the others over
what comes of it. The two ways are different computations: the first merges all tables and checks
what is left, the second checks twice and applies twice. They come to the same options
(`ConfigSource.Registry.load_append`), provided that no source gives `__proto__`, which replaces the
fallback of the merged table that it is written to.

The rule that `undefined` hides nothing is found on both sides, and they are compared key by key:
where the later sources give a key no value, merging leaves the value of the earlier ones
(`ConfigSource.Merged.lookup_replay_append`), and applying leaves the field of the base
(`ConfigSource.Options.withSettings_or`). That two checks succeed makes the one check succeed, since
it sees no value that none of them has seen.
-/

namespace ConfigSource

/-! ### The values of the merged table -/

namespace Merged

/-- Over a fallback that nobody replaced, what counts is what was given last. -/
theorem lookup_replay_of_not_isGiven {ws : List RawSetting}
    (h : ¬IsGiven ws Layered.fallbackKey) (k : SettingKey) :
    (empty.replay ws).lookup k.name
      = Value.ofOption ((lastGiven ws k.name).map RawSetting.value) := by
  have hvalue : (empty.replay ws).table.values.get? k.name
      = (lastGiven ws k.name).map RawSetting.value := by
    rw [get?_replay (Layered.isOrdinary_name k)]
    exact Option.or_none
  rw [lookup, Layered.lookup, fallback_replay h, hvalue]
  cases (lastGiven ws k.name).map RawSetting.value <;> rfl

/-- **Later settings hide what they give a value, and nothing else.** -/
theorem lookup_replay_append {ws ws' : List RawSetting}
    (h : ¬IsGiven (ws ++ ws') Layered.fallbackKey) (k : SettingKey) :
    (empty.replay (ws ++ ws')).lookup k.name
      = if ((empty.replay ws').lookup k.name).isUndefined then (empty.replay ws).lookup k.name
        else (empty.replay ws').lookup k.name := by
  have hfirst : ¬IsGiven ws Layered.fallbackKey := fun ⟨w, hw, hgives⟩ =>
    h ⟨w, List.mem_append_left _ hw, hgives⟩
  have hsecond : ¬IsGiven ws' Layered.fallbackKey := fun ⟨w, hw, hgives⟩ =>
    h ⟨w, List.mem_append_right _ hw, hgives⟩
  rw [lookup_replay_of_not_isGiven h, lookup_replay_of_not_isGiven hfirst,
    lookup_replay_of_not_isGiven hsecond, lastGiven_append]
  cases hlast : lastGiven ws' k.name with
  | none => rfl
  | some w =>
    have hdefined := (RawSetting.gives_iff.mp (mem_of_lastGiven hlast).2).2
    simp [Value.ofOption, hdefined]

end Merged

/-! ### Two checks and one -/

/-- A check of the value that is not hidden, if a missing value is checked to be missing. -/
theorem check_of_hidden {α : Type} {check : Value → Except Refusal (Option α)}
    (hnone : ∀ {v a}, check v = .ok a → a.isNone = v.isUndefined) {v v' : Value} {a a' : Option α}
    (h : check v = .ok a) (h' : check v' = .ok a') :
    check (if v'.isUndefined then v else v') = .ok (a'.or a) := by
  have hmissing : v'.isUndefined = a'.isNone := (hnone h').symm
  cases a' with
  | none => rw [hmissing, Option.isNone_none, if_pos rfl, h, Option.none_or]
  | some b => rw [hmissing, Option.isNone_some, if_neg Bool.false_ne_true, h', Option.some_or]

/-- The settings of which some come from later sources. -/
def Settings.or (later earlier : Settings) : Settings where
  dialect := later.dialect.or earlier.dialect
  origin := later.origin.or earlier.origin
  allowMissing := later.allowMissing.or earlier.allowMissing

/-- **Values that were checked apart are checked together.** -/
theorem Settings.check_of_hidden {look look' joint : String → Value} {s s' : Settings}
    (hjoint : ∀ k : SettingKey, joint k.name
      = if (look' k.name).isUndefined then look k.name else look' k.name)
    (h : check look = .ok s) (h' : check look' = .ok s') : check joint = .ok (s'.or s) := by
  obtain ⟨hd, ho, ha⟩ := check_eq_ok_iff.mp h
  obtain ⟨hd', ho', ha'⟩ := check_eq_ok_iff.mp h'
  refine check_eq_ok_iff.mpr ⟨?_, ?_, ?_⟩
  · rw [hjoint]
    exact ConfigSource.check_of_hidden isNone_of_checkDialect hd hd'
  · rw [hjoint]
    exact ConfigSource.check_of_hidden isNone_of_checkOrigin ho ho'
  · rw [hjoint]
    exact ConfigSource.check_of_hidden isNone_of_checkAllowMissing ha ha'

/-- **Applying one after the other is applying what is not hidden.** -/
theorem Options.withSettings_or (fields : Options) (later earlier : Settings) :
    fields.withSettings (later.or earlier) = (fields.withSettings earlier).withSettings later := by
  simp only [withSettings, Settings.or, Option.or_assoc]
  cases later.allowMissing <;> rfl

/-! ### Loading -/

namespace Registry

variable {r r' : Registry} {now : Int} {logger : Log.Logger} {sources : List Source}
  {base o : OptionsId}

/-- **Loading that succeeds**: the settings that were merged, checked and applied. -/
theorem load_eq_ok (h : (r.load now logger sources base).1 = (.ok o, r')) :
    ∃ s, Settings.check (Merged.empty.replay (rawSettings sources)).lookup = .ok s ∧
      (∀ source ∈ sources, ∃ settings, source.load = .ok settings) ∧
      r'.read o = (r.read base).withSettings s := by
  cases hm : (Merged.ofSources sources).outcome with
  | error e => simp [load, readSettings_of_failure hm] at h
  | ok m =>
    obtain ⟨hloads, rfl⟩ := Merged.outcome_ofSources_iff.mp hm
    have hread := readSettings_of_outcome hm now logger
    cases hcheck : Settings.check (Merged.empty.replay (rawSettings sources)).lookup with
    | error refusal => simp [load, hread, hcheck] at h
    | ok s =>
      rw [hcheck] at hread
      have happlied : r.applySettings base s = (o, r') := by
        simp only [load, hread, Prod.mk.injEq, Except.ok.injEq] at h
        exact Prod.ext h.1 h.2
      have hfields := read_applySettings r base s
      rw [happlied] at hfields
      exact ⟨s, rfl, hloads, hfields⟩

/-- Settings that are merged and checked are applied. -/
theorem load_of_check {s : Settings}
    (hloads : ∀ source ∈ sources, ∃ settings, source.load = .ok settings)
    (hcheck : Settings.check (Merged.empty.replay (rawSettings sources)).lookup = .ok s)
    (r : Registry) (now : Int) (logger : Log.Logger) (base : OptionsId) :
    (r.load now logger sources base).1
      = (.ok (r.applySettings base s).1, (r.applySettings base s).2) := by
  have hread := readSettings_of_outcome (Merged.outcome_ofSources_iff.mpr ⟨hloads, rfl⟩) now logger
  rw [hcheck] at hread
  simp only [load, hread]

/-- **Loading in one go comes to the same as loading one after the other.** If some sources are
loaded over a base, and others over what came of it, then loading all of them over the base succeeds
as well, and the two results have the same five fields. This holds at any instants and with any
loggers, and for a base that is read later on as it was read first. It takes that no source gives
`__proto__` a value. -/
theorem load_append {earlier later : List Source} {r₁ r₂ : Registry} {o₁ o₂ : OptionsId}
    {now₁ now₂ : Int} {logger₁ logger₂ : Log.Logger}
    (hordinary : ¬IsGiven (rawSettings (earlier ++ later)) Layered.fallbackKey)
    (h₁ : (r.load now₁ logger₁ earlier base).1 = (.ok o₁, r₁))
    (h₂ : (r₁.load now₂ logger₂ later o₁).1 = (.ok o₂, r₂)) :
    ∀ (s : Registry) (now : Int) (logger : Log.Logger), s.read base = r.read base →
      ∃ o₃ r₃, (s.load now logger (earlier ++ later) base).1 = (.ok o₃, r₃) ∧
        r₃.read o₃ = r₂.read o₂ := by
  intro s now logger hbase
  obtain ⟨s₁, hcheck₁, hloads₁, hfields₁⟩ := load_eq_ok h₁
  obtain ⟨s₂, hcheck₂, hloads₂, hfields₂⟩ := load_eq_ok h₂
  rw [rawSettings_append] at hordinary
  have hloads : ∀ source ∈ earlier ++ later, ∃ settings, source.load = .ok settings :=
    List.forall_mem_append.mpr ⟨hloads₁, hloads₂⟩
  have hcheck : Settings.check (Merged.empty.replay (rawSettings (earlier ++ later))).lookup
      = .ok (s₂.or s₁) := by
    rw [rawSettings_append]
    exact Settings.check_of_hidden (Merged.lookup_replay_append hordinary) hcheck₁ hcheck₂
  refine ⟨_, _, load_of_check hloads hcheck s now logger base, ?_⟩
  rw [read_applySettings, hbase, Options.withSettings_or, ← hfields₁, ← hfields₂]

/-- The later source leaves the description alone, which it has as `undefined`, and overrides what
is said about missing sources. -/
theorem load_append_overridden :
    let earlier : List Source :=
      [.object "file" [("ORIGIN", .text "a"), ("ALLOW_MISSING", .bool false)]]
    let later : List Source :=
      [.object "flags" [("ORIGIN", .undefined), ("ALLOW_MISSING", .bool true)]]
    let r : Registry := ⟨[.defaults], 0⟩
    ¬IsGiven (rawSettings (earlier ++ later)) Layered.fallbackKey ∧
      ∃ o₁ r₁ o₂ r₂ o₃ r₃, (r.load 0 .null earlier ⟨0⟩).1 = (.ok o₁, r₁) ∧
        (r₁.load 0 .null later o₁).1 = (.ok o₂, r₂) ∧
        (r.load 0 .null (earlier ++ later) ⟨0⟩).1 = (.ok o₃, r₃) ∧
        r₃.read o₃ = r₂.read o₂ := by
  intro earlier later r
  have hraw : rawSettings earlier
      = [⟨"file", "ORIGIN", .text "a"⟩, ⟨"file", "ALLOW_MISSING", .bool false⟩] := by
    rw [rawSettings_cons, Source.rawSettings_object _ (by decide)]
    rfl
  have hraw' : rawSettings later
      = [⟨"flags", "ORIGIN", .undefined⟩, ⟨"flags", "ALLOW_MISSING", .bool true⟩] := by
    rw [rawSettings_cons, Source.rawSettings_object _ (by decide)]
    rfl
  have hordinary : ¬IsGiven (rawSettings (earlier ++ later)) Layered.fallbackKey := by
    rw [rawSettings_append, hraw, hraw']
    simp [IsGiven, RawSetting.gives, Layered.fallbackKey, BuiltinName.name]
  have hcheck : Settings.check (Merged.empty.replay (rawSettings earlier)).lookup
      = .ok ⟨none, some "a", some false⟩ := by
    rw [hraw]
    rfl
  have hcheck' : Settings.check (Merged.empty.replay (rawSettings later)).lookup
      = .ok ⟨none, none, some true⟩ := by
    rw [hraw']
    rfl
  have h₁ := load_of_check (by simp [earlier, Source.load]) hcheck r 0 .null ⟨0⟩
  have h₂ := load_of_check (by simp [later, Source.load]) hcheck'
    (r.applySettings ⟨0⟩ ⟨none, some "a", some false⟩).2 0 .null
    (r.applySettings ⟨0⟩ ⟨none, some "a", some false⟩).1
  obtain ⟨o₃, r₃, h₃, hsame⟩ := load_append hordinary h₁ h₂ r 0 .null rfl
  exact ⟨hordinary, _, _, _, _, o₃, r₃, h₁, h₂, h₃, hsame⟩

end Registry

end ConfigSource
