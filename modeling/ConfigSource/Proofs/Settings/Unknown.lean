import ConfigSource.Proofs.Settings.Outcome

/-!
# Unknown settings

A setting that is not known should be **inert** – options are loaded as if it were not there – and
**reported**: a warning names it. Both fail for `__proto__`, which replaces the fallback of the
merged table instead of being merged. What stands in the fallback is **inherited**: it is read under
the known keys that no source gives, and nobody is warned of it.

This file says exactly when loading is not disturbed that way
(`ConfigSource.undisturbed_iff`): nothing is inherited – or the settings are refused for the same
issues anyway – and, if they are accepted, every key that was given is held by the merged table
itself. That is so whenever no source gives `__proto__`, and a record under that key breaks it
(`ConfigSource.not_inert_of_fallback_record`).

The comparison is between two replays: that of all settings, and that of the known ones alone
(`ConfigSource.rawSettings_map_onlyKnown`). They agree on what the merged table holds under known
keys; the second has nothing in its fallback.
-/

namespace ConfigSource

/-! ### What is asked of unknown settings -/

/-- The source without its unknown settings. -/
def Source.onlyKnown (s : Source) : Source :=
  match s.load with
  | .ok settings => .object s.name (settings.restrict SettingKey.isKnown)
  | .error e => .failing e

/-- **Unknown settings are inert**: loading gives the same without them, over every base. -/
def Inert (sources : List Source) : Prop :=
  ∀ (r : Registry) (now : Int) (logger : Log.Logger) (base : OptionsId),
    r.loaded now logger sources base = r.loaded now logger (sources.map Source.onlyKnown) base

/-- Two options have the same value of the field that a setting is about. -/
def SettingKey.SameField : SettingKey → Options → Options → Prop
  | dialect, fields, fields' => fields.dialect = fields'.dialect
  | origin, fields, fields' => fields.originDescription = fields'.originDescription
  | allowMissing, fields, fields' => fields.allowMissing = fields'.allowMissing

/-- **A field whose setting no source gives keeps the value of the base.** -/
def KeepsBase (sources : List Source) : Prop :=
  ∀ (r : Registry) (now : Int) (logger : Log.Logger) (base : OptionsId) (fields : Options),
    r.loaded now logger sources base = .ok fields →
      ∀ k : SettingKey, ¬IsGiven (rawSettings sources) k.name → k.SameField fields (r.read base)

/-- The keys that lines warn of, one list for each warning. -/
def warnings (lines : List Log.Line) : List (Option Value) :=
  (lines.filter (·.isAt .warn)).map (·.value? "keys")

/-- **Unknown settings are reported**: if settings are accepted and the logger lets warnings
through, one warning lists every unknown key that was given, once; there is none if no such key was
given. -/
def Reported (sources : List Source) : Prop :=
  ∀ (r : Registry) (now : Int) (logger : Log.Logger) (base : OptionsId) (fields : Options),
    r.loaded now logger sources base = .ok fields → logger.admits .warn = true →
      ∃ keys : List String, keys.Nodup ∧
        (∀ key, key ∈ keys ↔
          IsGiven (rawSettings sources) key ∧ SettingKey.isKnown key = false) ∧
        warnings (r.load now logger sources base).2
          = if keys = [] then [] else [some (.list (keys.map .text))]

/-! ### What is inherited -/

namespace Merged

/-- What the merged table holds itself under a key. -/
def own (m : Merged) (key : String) : Value := Value.ofOption (m.table.values.get? key)

/-- **A known key is inherited**: the merged table does not hold it, but its fallback has a value
under it. -/
def Inherits (m : Merged) (k : SettingKey) : Prop :=
  m.table.holds k.name = false ∧
    (Value.ofOption (m.table.fallback.get? k.name)).isUndefined = false

/-- What the merged table holds itself is refused, and for the same reasons with what is
inherited. -/
def RefusedAlike (m : Merged) : Prop :=
  ∃ refusal, Settings.check m.own = .error refusal ∧ Settings.check m.lookup = .error refusal

/-- The merged table holds every key that was given. -/
def HoldsGiven (m : Merged) (ws : List RawSetting) : Prop :=
  ∀ key, IsGiven ws key → m.table.holds key = true

theorem own_of_not_holds {m : Merged} {key : String} (h : m.table.holds key = false) :
    m.own key = .undefined := by
  have hnone : m.table.values.get? key = none := by simpa [Layered.holds] using h
  simp [own, hnone, Value.ofOption]

theorem lookup_of_holds {m : Merged} {key : String} (h : m.table.holds key = true) :
    m.lookup key = m.own key := by
  obtain ⟨v, hv⟩ := Option.isSome_iff_exists.mp h
  simp [lookup, Layered.lookup, own, hv, Value.ofOption]

theorem lookup_of_not_holds {m : Merged} {key : String} (h : m.table.holds key = false) :
    m.lookup key = Value.ofOption (m.table.fallback.get? key) := by
  have hnone : m.table.values.get? key = none := by simpa [Layered.holds] using h
  simp [lookup, Layered.lookup, hnone]

/-- What counts under a key that is not inherited is what the table holds itself. -/
theorem lookup_of_not_inherits {m : Merged} {k : SettingKey} (h : ¬m.Inherits k) :
    m.lookup k.name = m.own k.name := by
  cases hk : m.table.holds k.name with
  | true => exact lookup_of_holds hk
  | false =>
    have hu : (Value.ofOption (m.table.fallback.get? k.name)).isUndefined = true := by
      by_contra hne
      exact h ⟨hk, Bool.not_eq_true _ ▸ hne⟩
    rw [lookup_of_not_holds hk, own_of_not_holds hk, Value.eq_undefined_of_isUndefined hu]

/-- **The check is the same with and without what is inherited** exactly if nothing is inherited, or
both are refused alike. -/
theorem check_lookup_eq_iff {m : Merged} :
    Settings.check m.lookup = Settings.check m.own ↔
      (∀ k : SettingKey, ¬m.Inherits k) ∨ m.RefusedAlike := by
  constructor
  · intro h
    cases hown : Settings.check m.own with
    | error refusal => exact Or.inr ⟨refusal, hown, h.trans hown⟩
    | ok s =>
      refine Or.inl fun k hk => ?_
      -- an inherited value that is accepted gives a setting where the table itself gives none
      have hlook := Settings.gives_of_check (h.trans hown) k
      rw [Settings.gives_of_check hown k, own_of_not_holds hk.1, lookup_of_not_holds hk.1, hk.2]
        at hlook
      exact absurd hlook (by decide)
  · rintro (h | ⟨refusal, hown, hlook⟩)
    · exact Settings.check_congr fun k => lookup_of_not_inherits (h k)
    · rw [hown, hlook]

end Merged

/-! ### The known settings alone -/

theorem SettingKey.indexKey?_name (k : SettingKey) : Table.indexKey? k.name = none := by
  cases k <;> decide

/-- A table of known keys is read as it is written. -/
theorem load_restrict_isKnown (name : String) (t : Table Value) :
    (Source.object name (t.restrict SettingKey.isKnown)).load
      = .ok (t.restrict SettingKey.isKnown) := by
  refine congrArg Except.ok (Table.ordered_of_noIndex fun m hm => ?_)
  obtain ⟨k, hk⟩ := SettingKey.isKnown_iff.mp (List.mem_filter.mp hm).2
  rw [← hk, k.indexKey?_name]

theorem Source.onlyKnown_of_load {s : Source} {settings : Table Value}
    (h : s.load = .ok settings) :
    s.onlyKnown = .object s.name (settings.restrict SettingKey.isKnown) := by
  simp only [onlyKnown, h]

theorem Source.onlyKnown_of_failure {s : Source} {e : Value} (h : s.load = .error e) :
    s.onlyKnown = .failing e := by
  simp only [onlyKnown, h]

/-- **Without their unknown settings sources give their known ones**, in the same order. -/
theorem rawSettings_map_onlyKnown (sources : List Source) :
    rawSettings (sources.map Source.onlyKnown)
      = (rawSettings sources).filter fun w => SettingKey.isKnown w.key := by
  induction sources with
  | nil => rfl
  | cons s rest ih =>
    have hs : s.onlyKnown.rawSettings
        = s.rawSettings.filter fun w => SettingKey.isKnown w.key := by
      cases h : s.load with
      | error e =>
        rw [Source.onlyKnown_of_failure h, Source.rawSettings_of_failure h]
        rfl
      | ok settings =>
        rw [Source.onlyKnown_of_load h, Source.rawSettings_of_load h,
          Source.rawSettings_of_load (load_restrict_isKnown s.name settings), Table.restrict,
          List.filter_map]
        rfl
    simp only [rawSettings, List.map_cons, List.flatMap_cons, List.filter_append] at ih ⊢
    rw [hs, ih]

/-- The merged table of sources, next to that of their known settings. -/
theorem outcome_map_onlyKnown {sources : List Source} {m : Merged}
    (h : (Merged.ofSources sources).outcome = .ok m) :
    (Merged.ofSources (sources.map Source.onlyKnown)).outcome
      = .ok (Merged.empty.replay
          ((rawSettings sources).filter fun w => SettingKey.isKnown w.key)) := by
  obtain ⟨hload, -⟩ := Merged.outcome_ofSources_iff.mp h
  refine Merged.outcome_ofSources_iff.mpr ⟨fun s hs => ?_, by rw [rawSettings_map_onlyKnown]⟩
  obtain ⟨s', hs', rfl⟩ := List.mem_map.mp hs
  obtain ⟨settings, hsettings⟩ := hload s' hs'
  exact ⟨_, by rw [Source.onlyKnown_of_load hsettings, load_restrict_isKnown]⟩

section TwoReplays

variable (ws : List RawSetting) (k : SettingKey)

/-- **What counts among the known settings alone** is what the merged table of all of them holds
itself. -/
theorem lookup_replay_known :
    (Merged.empty.replay (ws.filter fun w => SettingKey.isKnown w.key)).lookup k.name
      = (Merged.empty.replay ws).own k.name := by
  have hfallback : ¬IsGiven (ws.filter fun w => SettingKey.isKnown w.key)
      Layered.fallbackKey := by
    rintro ⟨w, hw, hgives⟩
    have hkey := (List.mem_filter.mp hw).2
    rw [(RawSetting.gives_iff.mp hgives).1] at hkey
    exact absurd hkey (by decide)
  have hvalues : ∀ ws' : List RawSetting,
      (Merged.empty.replay ws').table.values.get? k.name
        = (lastGiven ws' k.name).map RawSetting.value := fun ws' => by
    rw [Merged.get?_replay (Layered.isOrdinary_name k)]
    simp [Merged.empty, Layered.empty]
  unfold Merged.lookup Layered.lookup Merged.own
  rw [Merged.fallback_replay hfallback, hvalues, hvalues,
    lastGiven_filter (SettingKey.isKnown_name k)]
  cases (lastGiven ws k.name).map RawSetting.value <;> rfl

/-- Known settings have the same source with and without the others. -/
theorem sourceOf_replay_known :
    (Merged.empty.replay (ws.filter fun w => SettingKey.isKnown w.key)).sourceOf k.name
      = (Merged.empty.replay ws).sourceOf k.name := by
  have hk := (Layered.isOrdinary_name k).1
  rw [Merged.sourceOf, Merged.sourceOf, Merged.provenance_replay hk, Merged.provenance_replay hk,
    lastGiven_filter (SettingKey.isKnown_name k)]

end TwoReplays

/-! ### Refusals -/

/-- Rejections that are the same name the same keys. -/
theorem offendingKeys_of_rejection {m m' : Merged} {now : Int} {broken broken' : List Issue}
    (h : rejection now m broken = rejection now m' broken') :
    offendingKeys broken = offendingKeys broken' := by
  have hkeys : (offendingKeys broken).map Value.text = (offendingKeys broken').map Value.text := by
    simp only [rejection, Value.configErrorAt, Value.configError.injEq, List.cons.injEq,
      Prod.mk.injEq, Value.list.injEq] at h
    exact h.2.1.1.2
  exact List.map_injective_iff.mpr (fun _ _ => Value.text.inj) hkeys

/-- Issues that name the same keys are the same, where a key has the same issues or none. -/
theorem issues_eq_of_offendingKeys {m : Merged} {broken broken' : List Issue}
    (h : Settings.check m.lookup = .error (.issues broken))
    (h' : Settings.check m.own = .error (.issues broken'))
    (hkeys : offendingKeys broken = offendingKeys broken') : broken = broken' := by
  rw [Settings.issues_of_check h, Settings.issues_of_check h']
  refine List.flatMap_congr fun k _ => ?_
  cases hk : m.table.holds k.name with
  | true => rw [Merged.lookup_of_holds hk]
  | false =>
    have hown : k.issues (m.own k.name) = [] := by
      rw [Merged.own_of_not_holds hk, SettingKey.issues_undefined]
    have hnot : k.name ∉ offendingKeys broken' := fun hmem =>
      (mem_offendingKeys_check h' k).mp hmem hown
    rw [← hkeys, mem_offendingKeys_check h k, not_not] at hnot
    rw [hown, hnot]

/-! ### Inertness -/

section Inert

variable {sources : List Source} {m : Merged}

/-- What reading the known settings alone gives. -/
theorem readSettings_onlyKnown (h : (Merged.ofSources sources).outcome = .ok m) (now : Int)
    (logger : Log.Logger) :
    (readSettings now logger (sources.map Source.onlyKnown)).1
      = match Settings.check m.own with
        | .ok s => .ok s
        | .error refusal => .error (onRefusal now logger m refusal).1 := by
  obtain ⟨-, rfl⟩ := Merged.outcome_ofSources_iff.mp h
  rw [readSettings_of_outcome (outcome_map_onlyKnown h),
    Settings.check_congr (lookup_replay_known (rawSettings sources))]
  cases Settings.check (Merged.empty.replay (rawSettings sources)).own with
  | ok s => rfl
  | error refusal =>
    exact congrArg (fun p => Except.error p.1)
      (onRefusal_congr (sourceOf_replay_known (rawSettings sources)) now logger refusal)

/-- Settings that leave the same fields over every base are the same. -/
theorem settings_eq_of_withSettings {s s' : Settings}
    (h : ∀ fields : Options, fields.withSettings s = fields.withSettings s') : s = s' := by
  have htrue := h .defaults
  have hfalse := h { Options.defaults with allowMissing := false }
  obtain ⟨dialect, origin, allowMissing⟩ := s
  obtain ⟨dialect', origin', allowMissing'⟩ := s'
  simp only [Options.withSettings, Options.defaults, Option.or_none, Options.mk.injEq]
    at htrue hfalse
  obtain ⟨rfl, rfl, ht, -, -⟩ := htrue
  obtain ⟨-, -, hf, -, -⟩ := hfalse
  cases allowMissing <;> cases allowMissing' <;> simp_all

/-- **Unknown settings are inert exactly if the check does not see what is inherited.** -/
theorem inert_iff_check_eq (h : (Merged.ofSources sources).outcome = .ok m) :
    Inert sources ↔ Settings.check m.lookup = Settings.check m.own := by
  constructor
  · intro hinert
    -- the epoch is an instant that has a text, and a registry of one instance gives any base
    obtain ⟨time, htime⟩ : ∃ time, Calendar.isoText? 0 = some time := ⟨_, rfl⟩
    have hsame : ∀ fields : Options,
        (readSettings 0 .null sources).1.map fields.withSettings
          = (readSettings 0 .null (sources.map Source.onlyKnown)).1.map fields.withSettings :=
      fun fields => by
        have hload := hinert ⟨[fields], 0⟩ 0 .null ⟨0⟩
        rwa [Registry.loaded_eq, Registry.loaded_eq] at hload
    rw [readSettings_onlyKnown h, readSettings_of_outcome h] at hsame
    cases hlook : Settings.check m.lookup with
    | ok s =>
      cases hown : Settings.check m.own with
      | ok s' =>
        simp only [hlook, hown, Except.map, Except.ok.injEq] at hsame
        rw [settings_eq_of_withSettings hsame]
      | error refusal' =>
        have hok := hsame .defaults
        simp [hlook, hown, Except.map] at hok
    | error refusal =>
      cases hown : Settings.check m.own with
      | ok s' =>
        have hok := hsame .defaults
        simp [hlook, hown, Except.map] at hok
      | error refusal' =>
        have hthrown : (onRefusal 0 .null m refusal).1 = (onRefusal 0 .null m refusal').1 := by
          simpa [hlook, hown, Except.map] using hsame .defaults
        cases refusal with
        | failed e =>
          have he := eq_withoutText_of_checkOrigin (Settings.check_eq_failed_iff.mp hlook)
          cases refusal' with
          | failed e' => exact congrArg (fun e => Except.error (Refusal.failed e)) hthrown
          | issues broken' =>
            rw [onRefusal_issues htime] at hthrown
            exact absurd (he.symm.trans hthrown) (by simp [rejection, Value.withoutText,
              Value.simpleError, Value.configErrorAt])
        | issues broken =>
          rw [onRefusal_issues htime] at hthrown
          cases refusal' with
          | failed e' =>
            have he := eq_withoutText_of_checkOrigin (Settings.check_eq_failed_iff.mp hown)
            exact absurd (hthrown.trans he) (by simp [rejection, Value.withoutText,
              Value.simpleError, Value.configErrorAt])
          | issues broken' =>
            rw [onRefusal_issues htime] at hthrown
            rw [issues_eq_of_offendingKeys hlook hown (offendingKeys_of_rejection hthrown)]
  · intro hcheck r now logger base
    rw [Registry.loaded_eq, Registry.loaded_eq, readSettings_onlyKnown h,
      readSettings_of_outcome h, hcheck]
    cases Settings.check m.own <;> rfl

theorem SettingKey.sameField_of_not_gives {s : Settings} {k : SettingKey} (h : s.gives k = false)
    (fields : Options) : k.SameField (fields.withSettings s) fields := by
  cases k with
  | dialect =>
    have hnone : s.dialect = none := by simpa [Settings.gives] using h
    simp [SameField, Options.withSettings, hnone]
  | origin =>
    have hnone : s.origin = none := by simpa [Settings.gives] using h
    simp [SameField, Options.withSettings, hnone]
  | allowMissing =>
    have hnone : s.allowMissing = none := by simpa [Settings.gives] using h
    simp [SameField, Options.withSettings, hnone]

/-- Settings that were loaded were accepted. -/
theorem check_of_loaded (h : (Merged.ofSources sources).outcome = .ok m) {r : Registry} {now : Int}
    {logger : Log.Logger} {base : OptionsId} {fields : Options}
    (hload : r.loaded now logger sources base = .ok fields) :
    ∃ s, Settings.check m.lookup = .ok s ∧ fields = (r.read base).withSettings s := by
  rw [Registry.loaded_eq, readSettings_of_outcome h] at hload
  cases hlook : Settings.check m.lookup with
  | error refusal => simp [hlook, Except.map] at hload
  | ok s =>
    rw [hlook] at hload
    exact ⟨s, rfl, (Except.ok.inj hload).symm⟩

/-- A field whose setting is not given keeps its value, if the check does not see what is
inherited. -/
theorem keepsBase_of_check_eq (h : (Merged.ofSources sources).outcome = .ok m)
    (hcheck : Settings.check m.lookup = Settings.check m.own) : KeepsBase sources := by
  intro r now logger base fields hload k hk
  obtain ⟨-, hm⟩ := Merged.outcome_ofSources_iff.mp h
  obtain ⟨s, hlook, rfl⟩ := check_of_loaded h hload
  have hnot : m.table.holds k.name = false := by
    rw [← Bool.not_eq_true, hm]
    exact fun hheld => hk (Merged.isGiven_of_holds hheld)
  refine SettingKey.sameField_of_not_gives ?_ _
  rw [Settings.gives_of_check (hcheck.symm.trans hlook) k, Merged.own_of_not_holds hnot]
  rfl

/-! ### The warning -/

theorem nodup_unknownKeys (ws : List RawSetting) :
    (unknownKeys (Merged.empty.replay ws)).Nodup :=
  (Table.nodup_keys_ordered (Merged.nodup_keys_replay ws)).filter _

theorem mem_unknownKeys {m : Merged} {key : String} :
    key ∈ unknownKeys m ↔ m.table.holds key = true ∧ SettingKey.isKnown key = false := by
  rw [unknownKeys, List.mem_filter, Merged.keys, Table.mem_keys_ordered, Layered.holds_iff,
    Bool.not_eq_true']

/-- **Of accepted settings one warning is written, with the unknown keys that are held**; none if
there are none. -/
theorem warnings_logAccepted {logger : Log.Logger} (hlogger : logger.admits .warn = true)
    (now : Int) (m : Merged) (s : Settings) :
    warnings (logAccepted now (loadLogger logger) m s)
      = if unknownKeys m = [] then [] else [some (.list ((unknownKeys m).map .text))] := by
  have hshows := (writes_logAccepted logger now m s).filter_isAt .warn
  rw [if_pos hlogger, acceptedEntries_at_warn] at hshows
  unfold warnings
  split at hshows
  · next hnone => rw [if_pos hnone, Log.Line.map_value?_of_shows hshows (by simp), List.map_nil]
  · next hsome =>
    have hkey : ∀ entry ∈ [unknownEntry (unknownKeys m)],
        (Table.get? entry.shown "keys").isSome = true := fun entry hentry => by
      rw [List.mem_singleton.mp hentry]
      rfl
    rw [if_neg hsome, Log.Line.map_value?_of_shows hshows hkey]
    rfl

/-- What loading warns of, if the settings are accepted. -/
theorem warnings_load (h : (Merged.ofSources sources).outcome = .ok m) {logger : Log.Logger}
    (hlogger : logger.admits .warn = true) {s : Settings} (hlook : Settings.check m.lookup = .ok s)
    (r : Registry) (now : Int) (base : OptionsId) :
    warnings (r.load now logger sources base).2
      = if unknownKeys m = [] then [] else [some (.list ((unknownKeys m).map .text))] := by
  rw [Registry.load_lines, readSettings_of_outcome h, hlook]
  exact warnings_logAccepted hlogger now m s

/-- **Unknown settings are reported exactly if accepted settings are held as they were given.** -/
theorem reported_iff (h : (Merged.ofSources sources).outcome = .ok m) :
    Reported sources ↔
      ((∃ s, Settings.check m.lookup = .ok s) → m.HoldsGiven (rawSettings sources)) := by
  obtain ⟨-, hm⟩ := Merged.outcome_ofSources_iff.mp h
  constructor
  · rintro hreported ⟨s, hlook⟩ key hkey
    cases hknown : SettingKey.isKnown key with
    | true =>
      obtain ⟨k, rfl⟩ := SettingKey.isKnown_iff.mp hknown
      rw [hm]
      exact Merged.holds_of_isGiven (Layered.isOrdinary_name k) hkey
    | false =>
      -- a logger that writes everything shows the list, and the list is that of the keys held
      have hlogger : (Log.Logger.bound (.atLeast .trace) .nested []).admits .warn = true := rfl
      have hload : Registry.empty.loaded 0 (.bound (.atLeast .trace) .nested []) sources ⟨0⟩
          = .ok (Options.defaults.withSettings s) := by
        rw [Registry.loaded_eq, readSettings_of_outcome h, hlook]
        rfl
      obtain ⟨keys, -, hmem, hwarn⟩ := hreported _ _ _ _ _ hload hlogger
      have hin : key ∈ keys := (hmem key).mpr ⟨hkey, hknown⟩
      rw [warnings_load h hlogger hlook, if_neg (List.ne_nil_of_mem hin)] at hwarn
      split at hwarn
      · cases hwarn
      · have hlists : (unknownKeys m).map Value.text = keys.map Value.text := by
          simpa using hwarn
        have hkeys := List.map_injective_iff.mpr (fun _ _ => Value.text.inj) hlists
        rw [← hkeys] at hin
        exact (mem_unknownKeys.mp hin).1
  · intro hheld r now logger base fields hload hlogger
    obtain ⟨s, hlook, -⟩ := check_of_loaded h hload
    refine ⟨unknownKeys m, hm ▸ nodup_unknownKeys _, fun key => ?_,
      warnings_load h hlogger hlook r now base⟩
    rw [mem_unknownKeys]
    refine and_congr_left fun _ => ⟨fun hkey => ?_, fun hkey => hheld ⟨s, hlook⟩ key hkey⟩
    rw [hm] at hkey
    exact Merged.isGiven_of_holds hkey

end Inert

/-! ### The exact condition -/

/-- **Unknown settings leave loading undisturbed exactly** if nothing is inherited, or the sources'
own values are refused anyway and for the same reasons, and if accepted settings are all held by the
merged table itself. It is enough that no source gives `__proto__`. -/
theorem undisturbed_iff {sources : List Source} {m : Merged}
    (h : (Merged.ofSources sources).outcome = .ok m) :
    (Inert sources ∧ KeepsBase sources ∧ Reported sources ↔
        ((∀ k : SettingKey, ¬m.Inherits k) ∨ m.RefusedAlike) ∧
          ((∃ s, Settings.check m.lookup = .ok s) → m.HoldsGiven (rawSettings sources))) ∧
      (¬IsGiven (rawSettings sources) Layered.fallbackKey →
        Inert sources ∧ KeepsBase sources ∧ Reported sources) := by
  have hiff : Inert sources ∧ KeepsBase sources ∧ Reported sources ↔
      ((∀ k : SettingKey, ¬m.Inherits k) ∨ m.RefusedAlike) ∧
        ((∃ s, Settings.check m.lookup = .ok s) → m.HoldsGiven (rawSettings sources)) := by
    rw [inert_iff_check_eq h, reported_iff h, ← Merged.check_lookup_eq_iff]
    exact ⟨fun ⟨hinert, _, hreported⟩ => ⟨hinert, hreported⟩,
      fun ⟨hinert, hreported⟩ => ⟨hinert, keepsBase_of_check_eq h hinert, hreported⟩⟩
  refine ⟨hiff, fun hproto => hiff.mpr ⟨Or.inl fun k hk => ?_, fun _ key hkey => ?_⟩⟩
  · obtain ⟨-, rfl⟩ := Merged.outcome_ofSources_iff.mp h
    have hvalue := hk.2
    rw [Merged.fallback_replay hproto] at hvalue
    exact absurd hvalue (by simp [Fallback.initial, Fallback.get?, Value.ofOption,
      Value.isUndefined])
  · obtain ⟨-, rfl⟩ := Merged.outcome_ofSources_iff.mp h
    exact Merged.holds_of_isGiven_of_initial rfl hproto (Or.inl hkey)

/-- Two sources with a misspelled key, the key that an error keeps to itself and a built-in name. -/
def misspelled : List Source :=
  [.object "file" [("SYNTAX", .text "conf"), ("SYNTX", .text "json"), ("stack", .null)],
    .object "flags" [("toString", .bool true), ("ORIGIN", .undefined)]]

theorem undisturbed_misspelled :
    Inert misspelled ∧ KeepsBase misspelled ∧ Reported misspelled := by
  have hraw : rawSettings misspelled
      = [⟨"file", "SYNTAX", .text "conf"⟩, ⟨"file", "SYNTX", .text "json"⟩,
        ⟨"file", "stack", .null⟩, ⟨"flags", "toString", .bool true⟩,
        ⟨"flags", "ORIGIN", .undefined⟩] := by
    rw [rawSettings, misspelled, List.flatMap_cons, List.flatMap_cons,
      Source.rawSettings_object _ (by decide), Source.rawSettings_object _ (by decide)]
    rfl
  have hmerged : (Merged.ofSources misspelled).outcome
      = .ok (Merged.empty.replay (rawSettings misspelled)) :=
    Merged.outcome_ofSources_iff.mpr ⟨by simp [misspelled, Source.load], rfl⟩
  refine (undisturbed_iff hmerged).2 ?_
  rw [hraw]
  simp [IsGiven, RawSetting.gives, Layered.fallbackKey, BuiltinName.name]

/-- **A record under `__proto__` is read as if its members were settings.** -/
theorem not_inert_of_fallback_record :
    ¬Inert [.object "object" [("__proto__", .record [("SYNTAX", .text "json")])]] := by
  have hraw : rawSettings [.object "object" [("__proto__", .record [("SYNTAX", .text "json")])]]
      = [⟨"object", "__proto__", .record [("SYNTAX", .text "json")]⟩] := by
    rw [rawSettings, List.flatMap_cons, Source.rawSettings_object _ (by decide)]
    rfl
  rw [inert_iff_check_eq (Merged.outcome_ofSources_iff.mpr ⟨by simp [Source.load], rfl⟩), hraw]
  have hlook : (Settings.check (Merged.empty.replay
      [⟨"object", "__proto__", .record [("SYNTAX", .text "json")]⟩]).lookup).toOption
        = some ⟨some .json, none, none⟩ := by decide +kernel
  have hown : (Settings.check (Merged.empty.replay
      [⟨"object", "__proto__", .record [("SYNTAX", .text "json")]⟩]).own).toOption
        = some ⟨none, none, none⟩ := by decide +kernel
  intro hsame
  rw [hsame, hown] at hlook
  exact absurd hlook (by decide)

end ConfigSource
