import ConfigSource.Proofs.Settings.Outcome

/-!
# The last value of a setting

Of the values that sources give a setting, the **last** one that is not `undefined` counts, and no
other: it is the one that is checked, that is applied, and whose source is logged – or named in the
rejection, if the value breaks the rule of the setting (`ConfigSource.last_given_counts`). Each
setting has its own last source, whatever the other settings are.

What earlier sources give is not looked at. The argument compares two replays of writes that differ
in the writes of one key only. Their merged tables are the same **off** that key
(`ConfigSource.Merged.agreeOff_replay`), and at the key both have the value that was given last. So
the two checks see the same values, and both rejections name the same sources.
-/

namespace ConfigSource

/-! ### What a source gives -/

/-- The value that a source gives a key, unless it gives `undefined` or nothing. -/
def Source.given? (s : Source) (key : String) : Option Value :=
  (lastGiven s.rawSettings key).map RawSetting.value

/-- Two sources have the same name and give the same, except for one key. -/
def Source.AgreeBut (key : String) (s s' : Source) : Prop :=
  s.name = s'.name ∧ ∃ settings settings', s.load = .ok settings ∧ s'.load = .ok settings' ∧
    settings.restrict (· != key) = settings'.restrict (· != key)

/-- A table that doubles no key is read from the settings of its source. -/
theorem Source.get?_of_mem_rawSettings {s : Source} {settings : Table Value}
    (hload : s.load = .ok settings) (hkeys : settings.keys.Nodup) {w : RawSetting}
    (h : w ∈ s.rawSettings) : settings.get? w.key = some w.value := by
  rw [rawSettings_of_load hload] at h
  obtain ⟨m, hm, rfl⟩ := List.mem_map.mp h
  exact Table.get?_of_mem hkeys hm

/-- **A table that doubles no key gives what it holds**, unless that is `undefined`. -/
theorem Source.given?_eq_some_iff {s : Source} {settings : Table Value}
    (hload : s.load = .ok settings) (hkeys : settings.keys.Nodup) {key : String} {v : Value} :
    s.given? key = some v ↔ settings.get? key = some v ∧ v.isUndefined = false := by
  constructor
  · intro h
    obtain ⟨w, hw, rfl⟩ := Option.map_eq_some_iff.mp h
    obtain ⟨hin, hgives⟩ := mem_of_lastGiven hw
    obtain ⟨rfl, hdefined⟩ := RawSetting.gives_iff.mp hgives
    exact ⟨get?_of_mem_rawSettings hload hkeys hin, hdefined⟩
  · rintro ⟨hget, hdefined⟩
    have hin : (⟨s.name, key, v⟩ : RawSetting) ∈ s.rawSettings := by
      rw [rawSettings_of_load hload]
      exact List.mem_map.mpr ⟨(key, v), Table.mem_of_get? hget, rfl⟩
    obtain ⟨w, hw⟩ := Option.isSome_iff_exists.mp (isSome_lastGiven_iff.mpr
      ⟨_, hin, RawSetting.gives_iff.mpr ⟨rfl, hdefined⟩⟩)
    obtain ⟨hlast, hgives⟩ := mem_of_lastGiven hw
    have hsame := get?_of_mem_rawSettings hload hkeys hlast
    rw [(RawSetting.gives_iff.mp hgives).1, hget] at hsame
    rw [given?, hw, Option.map_some, hsame]

/-- Sources that do not give a key leave it alone. -/
theorem lastGiven_of_none {sources : List Source} {key : String}
    (h : ∀ s ∈ sources, s.given? key = none) : lastGiven (rawSettings sources) key = none := by
  induction sources with
  | nil => rfl
  | cons s rest ih =>
    rw [rawSettings_cons, lastGiven_append, ih fun s' hs' => h s' (List.mem_cons_of_mem _ hs'),
      Option.none_or, Option.map_eq_none_iff.mp (h s List.mem_cons_self)]

/-- **The last source that gives a key decides**: what is given last is its value, under its
name. -/
theorem lastGiven_of_last {before after : List Source} {s : Source} {key : String} {v : Value}
    (hgiven : s.given? key = some v) (hafter : ∀ s' ∈ after, s'.given? key = none) :
    lastGiven (rawSettings (before ++ s :: after)) key = some ⟨s.name, key, v⟩ := by
  obtain ⟨w, hw, rfl⟩ := Option.map_eq_some_iff.mp hgiven
  obtain ⟨hin, hgives⟩ := mem_of_lastGiven hw
  rw [rawSettings_append, rawSettings_cons, lastGiven_append, lastGiven_append,
    lastGiven_of_none hafter, Option.none_or, hw, Option.some_or,
    ← Source.source_of_mem_rawSettings hin, ← (RawSetting.gives_iff.mp hgives).1]

/-! ### Replays that differ in one key -/

namespace Merged

/-- **Two merged tables are the same off a key.** -/
structure AgreeOff (key : String) (m m' : Merged) : Prop where
  /-- They have the same fallback. -/
  fallback : m.table.fallback = m'.table.fallback
  /-- They hold the same under all other keys. -/
  values : ∀ other, other ≠ key → m.table.values.get? other = m'.table.values.get? other
  /-- What they hold there is from the same sources. -/
  provenance : ∀ other, other ≠ key → m.provenance.get? other = m'.provenance.get? other

namespace AgreeOff

variable {key : String} {m m' m'' : Merged}

theorem refl (key : String) (m : Merged) : AgreeOff key m m :=
  ⟨rfl, fun _ _ => rfl, fun _ _ => rfl⟩

theorem symm (h : AgreeOff key m m') : AgreeOff key m' m :=
  ⟨h.fallback.symm, fun other ho => (h.values other ho).symm,
    fun other ho => (h.provenance other ho).symm⟩

theorem trans (h : AgreeOff key m m') (h' : AgreeOff key m' m'') : AgreeOff key m m'' :=
  ⟨h.fallback.trans h'.fallback, fun other ho => (h.values other ho).trans (h'.values other ho),
    fun other ho => (h.provenance other ho).trans (h'.provenance other ho)⟩

/-- **The same write to another key** goes the same way in both tables. -/
theorem write (h : AgreeOff key m m') {w : RawSetting} (hkey : w.key ≠ key) :
    AgreeOff key (m.write w) (m'.write w) := by
  cases hu : w.value.isUndefined with
  | true => rwa [write_of_undefined hu, write_of_undefined hu]
  | false =>
    -- where a write goes depends on the fallback and on whether its own key is held
    have hholds : m.table.holds w.key = m'.table.holds w.key := by
      rw [Layered.holds, Layered.holds, h.values w.key hkey]
    have hreplaces : m.table.replacesFallback w.key = m'.table.replacesFallback w.key := by
      rw [Layered.replacesFallback, Layered.replacesFallback, hholds, h.fallback]
    have htaken : m.table.isTakenByError w.key = m'.table.isTakenByError w.key := by
      rw [Layered.isTakenByError, Layered.isTakenByError, hholds, h.fallback]
    rw [write_of_defined hu, write_of_defined hu]
    refine ⟨?_, fun other ho => ?_, fun other ho => ?_⟩
    · simp only [Layered.assign, hreplaces, htaken, h.fallback]
      split
      · rfl
      · split
        · exact h.fallback
        · rfl
    · simp only [Layered.assign, hreplaces, htaken]
      split
      · exact h.values other ho
      · split
        · exact h.values other ho
        · simp only [Table.get?_set, h.values other ho]
    · simp only [recordProvenance]
      split
      · exact h.provenance other ho
      · simp only [Table.get?_set, h.provenance other ho]

/-- **A write to the key itself** is not seen off the key. -/
theorem write_self (hord : Layered.IsOrdinary key) (m : Merged) {w : RawSetting}
    (hkey : w.key = key) : AgreeOff key (m.write w) m := by
  cases hu : w.value.isUndefined with
  | true =>
    rw [write_of_undefined hu]
    exact refl key m
  | false =>
    have htable : m.table.assign w.key w.value
        = { m.table with values := m.table.values.set w.key w.value } := by
      rcases Layered.assign_cases m.table w.key w.value with ⟨hk, -⟩ | ⟨hk, -⟩ | ht
      · exact absurd (hkey ▸ hk) hord.1
      · exact absurd (hkey ▸ hk) hord.2
      · exact ht
    rw [write_of_defined hu, htable, recordProvenance, if_neg (hkey ▸ hord.1)]
    exact ⟨rfl, fun other ho => Table.get?_set_of_ne _ _ (hkey ▸ Ne.symm ho),
      fun other ho => Table.get?_set_of_ne _ _ (hkey ▸ Ne.symm ho)⟩

end AgreeOff

/-- A replay agrees off a key with the replay of the writes to other keys. -/
theorem agreeOff_replay_filter {key : String} (hord : Layered.IsOrdinary key)
    (ws : List RawSetting) {m m' : Merged} (h : AgreeOff key m m') :
    AgreeOff key (m.replay ws) (m'.replay (ws.filter fun w => w.key != key)) := by
  induction ws generalizing m m' with
  | nil => exact h
  | cons w ws ih =>
    by_cases hkey : w.key = key
    · rw [List.filter_cons_of_neg (by simp [hkey]), replay_cons]
      exact ih ((AgreeOff.write_self hord m hkey).trans h)
    · rw [List.filter_cons_of_pos (by simp [hkey]), replay_cons, replay_cons]
      exact ih (h.write hkey)

/-- **Replays with the same writes to other keys agree off a key.** -/
theorem agreeOff_replay {key : String} (hord : Layered.IsOrdinary key) {ws ws' : List RawSetting}
    (h : (ws.filter fun w => w.key != key) = ws'.filter fun w => w.key != key) (m : Merged) :
    AgreeOff key (m.replay ws) (m.replay ws') := by
  have hws := agreeOff_replay_filter hord ws (AgreeOff.refl key m)
  rw [h] at hws
  exact hws.trans (agreeOff_replay_filter hord ws' (AgreeOff.refl key m)).symm

/-- What stands under a key after the replay of writes that give it. -/
theorem lookup_replay {key : String} (hord : Layered.IsOrdinary key) {ws : List RawSetting}
    {w : RawSetting} (h : lastGiven ws key = some w) (m : Merged) :
    (m.replay ws).lookup key = w.value := by
  rw [lookup, Layered.lookup, get?_replay hord, h, Option.map_some, Option.some_or]

theorem provenance_of_lastGiven {key : String} (hord : Layered.IsOrdinary key)
    {ws : List RawSetting} {w : RawSetting} (h : lastGiven ws key = some w) (m : Merged) :
    (m.replay ws).provenance.get? key = some w.source := by
  rw [provenance_replay hord.1, h, Option.map_some, Option.some_or]

theorem lookup_of_agreeOff {key other : String} {m m' : Merged} (h : AgreeOff key m m')
    (hother : other ≠ key) : m.lookup other = m'.lookup other := by
  rw [lookup, lookup, Layered.lookup, Layered.lookup, h.values other hother, h.fallback]

theorem sourceOf_of_agreeOff {key other : String} {m m' : Merged} (h : AgreeOff key m m')
    (hother : other ≠ key) : m.sourceOf other = m'.sourceOf other := by
  rw [sourceOf, sourceOf, h.provenance other hother]

end Merged

/-! ### Sources that differ in one key -/

theorem Source.AgreeBut.filter_rawSettings {key : String} {s s' : Source}
    (h : s.AgreeBut key s') :
    (s.rawSettings.filter fun w => w.key != key) = s'.rawSettings.filter fun w => w.key != key := by
  obtain ⟨hname, settings, settings', hload, hload', hrestrict⟩ := h
  have hmap : ∀ (name : String) (t : Table Value),
      ((t.map fun m => (⟨name, m.1, m.2⟩ : RawSetting)).filter fun w => w.key != key)
        = (t.restrict (· != key)).map fun m => ⟨name, m.1, m.2⟩ := fun name t => by
    rw [List.filter_map]
    rfl
  rw [rawSettings_of_load hload, rawSettings_of_load hload', hmap, hmap, hrestrict, hname]

theorem filter_rawSettings_of_agreeBut {key : String} {before before' : List Source}
    (h : List.Forall₂ (Source.AgreeBut key) before before') :
    ((rawSettings before).filter fun w => w.key != key)
      = (rawSettings before').filter fun w => w.key != key := by
  induction h with
  | nil => rfl
  | cons hs _ ih =>
    rw [rawSettings_cons, rawSettings_cons, List.filter_append, List.filter_append,
      hs.filter_rawSettings, ih]

theorem loads_of_agreeBut {key : String} {before before' : List Source}
    (h : List.Forall₂ (Source.AgreeBut key) before before') :
    ∀ s ∈ before', ∃ settings, s.load = .ok settings := by
  induction h with
  | nil => exact fun _ hs => absurd hs List.not_mem_nil
  | cons hs _ ih =>
    obtain ⟨-, -, settings', -, hload', -⟩ := hs
    exact List.forall_mem_cons.mpr ⟨⟨settings', hload'⟩, ih⟩

/-! ### What is applied and logged -/

/-- A field has the checked value of a setting. -/
def SettingKey.Sets : SettingKey → Value → Options → Prop
  | dialect, v, fields => checkDialect v = .ok fields.dialect
  | origin, v, fields => checkOrigin v = .ok fields.originDescription
  | allowMissing, v, fields => checkAllowMissing v = .ok (some fields.allowMissing)

/-- The provenances that lines show, one for each line on accepted settings. -/
def provenances (lines : List Log.Line) : List (Option Value) :=
  (lines.filter (·.isAt .debug)).map (·.value? "provenance")

theorem provenances_logAccepted {logger : Log.Logger} (hlogger : logger.admits .debug = true)
    (now : Int) (m : Merged) (s : Settings) :
    provenances (logAccepted now (loadLogger logger) m s)
      = [some (.record m.provenanceRecord)] := by
  have hshows := (writes_logAccepted logger now m s).filter_isAt .debug
  rw [if_pos hlogger, acceptedEntries_at_debug] at hshows
  have hkey : ∀ entry ∈ [appliedEntry m s],
      (Table.get? entry.shown "provenance").isSome = true := fun entry hentry => by
    rw [List.mem_singleton.mp hentry]
    rfl
  rw [provenances, Log.Line.map_value?_of_shows hshows hkey]
  rfl

theorem Merged.get?_provenanceRecord (m : Merged) (key : String) :
    Table.get? m.provenanceRecord key = (m.provenance.get? key).map .text := by
  unfold provenanceRecord
  induction m.provenance with
  | nil => rfl
  | cons entry rest ih =>
    obtain ⟨k, name⟩ := entry
    by_cases h : k = key <;> simp [Table.get?, h, ih]

/-- A value that is checked and is there is applied. -/
theorem SettingKey.sets_of_check {look : String → Value} {s : Settings} (k : SettingKey)
    (h : Settings.check look = .ok s) (hdefined : (look k.name).isUndefined = false)
    (fields : Options) : k.Sets (look k.name) (fields.withSettings s) := by
  obtain ⟨hd, ho, ha⟩ := Settings.check_eq_ok_iff.mp h
  have hgives := Settings.gives_of_check h k
  rw [hdefined] at hgives
  cases k with
  | dialect =>
    obtain ⟨d, hsome⟩ := Option.isSome_iff_exists.mp hgives
    simp only [Sets, hd, Options.withSettings, hsome, Option.some_or]
  | origin =>
    obtain ⟨o, hsome⟩ := Option.isSome_iff_exists.mp hgives
    simp only [Sets, ho, Options.withSettings, hsome, Option.some_or]
  | allowMissing =>
    obtain ⟨a, hsome⟩ := Option.isSome_iff_exists.mp hgives
    simp only [Sets, ha, Options.withSettings, hsome, Option.getD_some]

/-! ### The last value counts -/

section Last

variable {before after : List Source} {s : Source} {k : SettingKey} {v : Value}
  (hgiven : s.given? k.name = some v) (hafter : ∀ s' ∈ after, s'.given? k.name = none)

include hgiven hafter

theorem lookup_of_last (earlier : List Source) :
    (Merged.empty.replay (rawSettings (earlier ++ s :: after))).lookup k.name = v :=
  Merged.lookup_replay (Layered.isOrdinary_name k) (lastGiven_of_last hgiven hafter) .empty

theorem provenance_of_last (earlier : List Source) :
    (Merged.empty.replay (rawSettings (earlier ++ s :: after))).provenance.get? k.name
      = some s.name :=
  Merged.provenance_of_lastGiven (Layered.isOrdinary_name k) (lastGiven_of_last hgiven hafter)
    .empty

/-- **The last value is applied, and its source is logged.** -/
theorem applied_of_last
    (hm : (Merged.ofSources (before ++ s :: after)).outcome
      = .ok (Merged.empty.replay (rawSettings (before ++ s :: after))))
    {r : Registry} {now : Int} {logger : Log.Logger} {base : OptionsId} {fields : Options}
    (hfields : r.loaded now logger (before ++ s :: after) base = .ok fields) :
    k.Sets v fields ∧ (logger.admits .debug = true → ∃ members,
      provenances (r.load now logger (before ++ s :: after) base).2 = [some (.record members)] ∧
        Table.get? members k.name = some (.text s.name)) := by
  have hlookup := lookup_of_last hgiven hafter before
  have hdefined : v.isUndefined = false :=
    (RawSetting.gives_iff.mp (mem_of_lastGiven (@lastGiven_of_last before after s _ v hgiven
      hafter)).2).2
  rw [Registry.loaded_eq, readSettings_of_outcome hm] at hfields
  rw [Registry.load_lines, readSettings_of_outcome hm]
  cases hcheck : Settings.check (Merged.empty.replay
      (rawSettings (before ++ s :: after))).lookup with
  | error refusal => simp [hcheck, Except.map] at hfields
  | ok settings =>
    rw [hcheck] at hfields
    obtain rfl := Except.ok.inj hfields
    refine ⟨?_, fun hlogger => ⟨_, provenances_logAccepted hlogger now _ settings, ?_⟩⟩
    · rw [← hlookup]
      exact k.sets_of_check hcheck (by rwa [hlookup]) _
    · rw [Merged.get?_provenanceRecord, provenance_of_last hgiven hafter]
      rfl

/-- **A rejection names the setting exactly if its last value breaks its rule**, and beside it the
source of that value. -/
theorem named_of_last
    (hm : (Merged.ofSources (before ++ s :: after)).outcome
      = .ok (Merged.empty.replay (rawSettings (before ++ s :: after))))
    {r : Registry} {now : Int} {logger : Log.Logger} {base : OptionsId} {head : ErrorHead}
    {context : Table Value} {cause : Value}
    (hthrown : (r.load now logger (before ++ s :: after) base).1.1
      = .error (.configError head context cause)) :
    head.code = invalidSettingsCode ∧ ∃ keys names : List String,
      context = [("keys", .list (keys.map .text)), ("sources", .list (names.map .text))] ∧
      (k.name ∈ keys ↔ k.issues v ≠ []) ∧
      ∀ i : Nat, keys[i]? = some k.name → names[i]? = some s.name := by
  obtain ⟨broken, hcheck, hrejection⟩ :=
    exists_rejection_of_readSettings hm (Registry.readSettings_of_load_error hthrown)
  rw [rejection_eq] at hrejection
  obtain ⟨rfl, rfl, -⟩ := Value.configError.inj hrejection
  refine ⟨rfl, offendingKeys broken, (offendingKeys broken).map
    (Merged.empty.replay (rawSettings (before ++ s :: after))).sourceOf, ?_, ?_, fun i hi => ?_⟩
  · simp [rejectionContext, Function.comp_def]
  · rw [mem_offendingKeys_check hcheck, lookup_of_last hgiven hafter]
  · rw [List.getElem?_map, hi, Option.map_some, Merged.sourceOf,
      provenance_of_last hgiven hafter]
    rfl

/-- **Earlier values are not looked at**: merged tables with the same last value and the same
settings of other keys have the same outcome. -/
theorem readSettings_of_agreeBut {before' : List Source}
    (hload : ∀ s' ∈ before ++ s :: after, ∃ settings, s'.load = .ok settings)
    (hagree : List.Forall₂ (Source.AgreeBut k.name) before before') (now : Int)
    (logger : Log.Logger) :
    (readSettings now logger (before' ++ s :: after)).1
      = (readSettings now logger (before ++ s :: after)).1 := by
  have hload' : ∀ s' ∈ before' ++ s :: after, ∃ settings, s'.load = .ok settings :=
    List.forall_mem_append.mpr ⟨loads_of_agreeBut hagree, (List.forall_mem_append.mp hload).2⟩
  have hwrites : ((rawSettings (before' ++ s :: after)).filter fun w => w.key != k.name)
      = (rawSettings (before ++ s :: after)).filter fun w => w.key != k.name := by
    rw [rawSettings_append, rawSettings_append, List.filter_append, List.filter_append,
      filter_rawSettings_of_agreeBut hagree]
  have hoff := Merged.agreeOff_replay (Layered.isOrdinary_name k) hwrites .empty
  have hname : ∀ k' : SettingKey, k' ≠ k → k'.name ≠ k.name := fun _ hk h =>
    hk (SettingKey.name_injective h)
  refine readSettings_congr (Merged.outcome_ofSources_iff.mpr ⟨hload', rfl⟩)
    (Merged.outcome_ofSources_iff.mpr ⟨hload, rfl⟩) (fun k' => ?_) (fun k' => ?_) now logger
  · by_cases hk : k' = k
    · rw [hk, lookup_of_last hgiven hafter, lookup_of_last hgiven hafter]
    · exact Merged.lookup_of_agreeOff hoff (hname k' hk)
  · by_cases hk : k' = k
    · rw [hk, Merged.sourceOf, Merged.sourceOf, provenance_of_last hgiven hafter,
        provenance_of_last hgiven hafter]
    · exact Merged.sourceOf_of_agreeOff hoff (hname k' hk)

end Last

/-- **The last value that is given counts, and no other.** If `s` is the last source that gives a
setting something other than `undefined`, and all sources load:

* the merged table has its value there, and a rejection names the setting exactly if that value
  breaks the rule of the setting;
* if the settings are accepted, its checked value is applied, and the line on them names `s`;
* if an error of this library is thrown, it is a rejection; it names the setting exactly if the
  value breaks the rule, and `s` beside it;
* whatever other values earlier sources give the setting, loading comes to the same. -/
theorem last_given_counts {before after : List Source} {s : Source} {k : SettingKey} {v : Value}
    (hload : ∀ s' ∈ before ++ s :: after, ∃ settings, s'.load = .ok settings)
    (hgiven : s.given? k.name = some v) (hafter : ∀ s' ∈ after, s'.given? k.name = none) :
    (∃ m, (Merged.ofSources (before ++ s :: after)).outcome = .ok m ∧ m.lookup k.name = v ∧
      ∀ broken, Settings.check m.lookup = .error (.issues broken) →
        (k.name ∈ offendingKeys broken ↔ k.issues v ≠ [])) ∧
    (∀ (r : Registry) (now : Int) (logger : Log.Logger) (base : OptionsId) (fields : Options),
      r.loaded now logger (before ++ s :: after) base = .ok fields →
        k.Sets v fields ∧
        (logger.admits .debug = true → ∃ members,
          provenances (r.load now logger (before ++ s :: after) base).2
              = [some (.record members)] ∧
            Table.get? members k.name = some (.text s.name))) ∧
    (∀ (r : Registry) (now : Int) (logger : Log.Logger) (base : OptionsId) (head : ErrorHead)
        (context : Table Value) (cause : Value),
      (r.load now logger (before ++ s :: after) base).1.1
          = .error (.configError head context cause) →
        head.code = invalidSettingsCode ∧ ∃ keys names : List String,
          context = [("keys", .list (keys.map .text)), ("sources", .list (names.map .text))] ∧
          (k.name ∈ keys ↔ k.issues v ≠ []) ∧
          ∀ i : Nat, keys[i]? = some k.name → names[i]? = some s.name) ∧
    ∀ before', List.Forall₂ (Source.AgreeBut k.name) before before' →
      ∀ (r : Registry) (now : Int) (logger : Log.Logger) (base : OptionsId),
        (r.load now logger (before' ++ s :: after) base).1
          = (r.load now logger (before ++ s :: after) base).1 := by
  have hm : (Merged.ofSources (before ++ s :: after)).outcome = .ok _ :=
    Merged.outcome_ofSources_iff.mpr ⟨hload, rfl⟩
  have hlookup := lookup_of_last hgiven hafter before
  refine ⟨⟨_, hm, hlookup, fun broken hbroken => ?_⟩, ?_, ?_, ?_⟩
  · rw [mem_offendingKeys_check hbroken, hlookup]
  · intro r now logger base fields hfields
    exact applied_of_last hgiven hafter hm hfields
  · intro r now logger base head context cause hthrown
    exact named_of_last hgiven hafter hm hthrown
  · intro before' hagree r now logger base
    exact Registry.load_congr (readSettings_of_agreeBut hgiven hafter hload hagree now logger) r
      base

/-- The overridden number is no dialect, and the last source gives none. -/
theorem last_given_counts_overridden :
    let first : Source := .object "file" [("SYNTAX", .number (.ofInt 1))]
    let middle : Source := .object "flags" [("SYNTAX", .text "JSON")]
    let last : Source := .object "late" [("SYNTAX", .undefined)]
    (∀ s ∈ [first, middle, last], ∃ settings, s.load = .ok settings) ∧
      middle.given? "SYNTAX" = some (.text "JSON") ∧ last.given? "SYNTAX" = none ∧
      ∃ m, (Merged.ofSources [first, middle, last]).outcome = .ok m ∧
        m.lookup "SYNTAX" = .text "JSON" := by
  intro first middle last
  have hload : ∀ (name : String) (v : Value),
      (Source.object name [("SYNTAX", v)]).load = .ok [("SYNTAX", v)] := fun _ v =>
    congrArg Except.ok (Table.ordered_of_noIndex (by simp; decide))
  have hloads : ∀ s ∈ [first, middle, last], ∃ settings, s.load = .ok settings := by
    simp [first, middle, last, hload]
  have hmiddle : middle.given? "SYNTAX" = some (.text "JSON") :=
    (Source.given?_eq_some_iff (hload _ _) (by simp)).mpr ⟨rfl, rfl⟩
  have hlast : last.given? "SYNTAX" = none := by
    refine Option.eq_none_iff_forall_ne_some.mpr fun v hv => ?_
    obtain ⟨hget, hdefined⟩ := (Source.given?_eq_some_iff (hload _ _) (by simp)).mp hv
    rw [← Option.some.inj hget] at hdefined
    cases hdefined
  obtain ⟨m, hm, hlookup, -⟩ := (@last_given_counts [first] [last] middle .dialect (.text "JSON")
    hloads hmiddle (List.forall_mem_singleton.mpr hlast)).1
  exact ⟨hloads, hmiddle, hlast, m, hm, hlookup⟩

end ConfigSource
