import ConfigSource.Proofs.Settings.LastGiven
import ConfigSource.Proofs.Settings.Rules
import ConfigSource.Proofs.Settings.Successive
import ConfigSource.Proofs.Settings.Unknown

/-!
# What is read of an environment

A source reads the variables of an **environment** whose names begin with a given text, under what
is left of their names. Of these only three are settings. Loading does not depend on any other
variable (`ConfigSource.load_of_environments`), and it warns of those that begin with the text.

* Cutting the text off is injective: two variables never meet under one key
  (`ConfigSource.Source.settingOf?_eq_some_iff`). So what the source gives a key is what one
  variable holds (`ConfigSource.given?_environment`).
* The key that replaces the fallback of a table has no effect here, since a variable holds a text or
  nothing (`ConfigSource.Layered.values_assignAll`): it is not given at all, and nobody is warned of
  it.
-/

namespace ConfigSource

/-! ### Environments -/

/-- Whether a value can be held by a variable: a text, or nothing. -/
def Value.IsHeld (v : Value) : Prop := v = .undefined ∨ ∃ s, v = .text s

/-- **An environment** has every variable once, and each holds a text or nothing. -/
structure IsEnvironment (held : Table Value) : Prop where
  /-- No variable is there twice. -/
  once : held.keys.Nodup
  /-- A variable holds a text or nothing. -/
  texts : ∀ m ∈ held, m.2.IsHeld

/-- The text of a variable, if it holds one. -/
def heldText? (held : Table Value) (name : String) : Option String :=
  match held.get? name with
  | some (.text s) => some s
  | _ => none

theorem heldText?_eq_some_iff {held : Table Value} {name s : String} :
    heldText? held name = some s ↔ held.get? name = some (.text s) := by
  unfold heldText?
  split
  · next h => simp [h]
  · next h =>
    refine iff_of_false (by simp) fun hs => h s hs

/-- **A variable is superfluous**: it begins with the text that is cut off, it holds a text, and
what is left of its name is neither a known setting nor the key of the fallback. -/
def IsSuperfluous (start : String) (held : Table Value) (key : String) : Prop :=
  SettingKey.isKnown key = false ∧ key ≠ Layered.fallbackKey ∧
    (heldText? held (start ++ key)).isSome = true

/-! ### Cutting off the beginning -/

namespace Source

/-- **A variable stands for a setting exactly if its name is the beginning and the key.** -/
theorem settingOf?_eq_some_iff {start name key : String} :
    settingOf? start name = some key ↔ name = start ++ key := by
  rw [← String.toList_inj, String.toList_append]
  unfold settingOf?
  split
  · next h =>
    obtain ⟨rest, hrest⟩ := List.isPrefixOf_iff_prefix.mp h
    rw [← hrest, List.drop_left, Option.some.injEq, ← String.toList_inj, String.toList_ofList,
      List.append_cancel_left_eq]
  · next h =>
    refine iff_of_false (by simp) fun hname => h ?_
    exact List.isPrefixOf_iff_prefix.mpr ⟨_, hname.symm⟩

theorem mem_settingsOf {start key : String} {held : Table Value} {v : Value} :
    (key, v) ∈ settingsOf start held ↔ (start ++ key, v) ∈ held := by
  simp only [settingsOf, List.mem_filterMap, Option.map_eq_some_iff, Prod.mk.injEq]
  constructor
  · rintro ⟨⟨name, w⟩, hm, key', hkey, rfl, rfl⟩
    rwa [← settingOf?_eq_some_iff.mp hkey]
  · intro hm
    exact ⟨_, hm, key, settingOf?_eq_some_iff.mpr rfl, rfl, rfl⟩

/-- **Variables do not meet under one key.** -/
theorem nodup_keys_settingsOf (start : String) {held : Table Value} (h : held.keys.Nodup) :
    (Table.keys (settingsOf start held)).Nodup := by
  have hkeys : Table.keys (settingsOf start held) = held.keys.filterMap (settingOf? start) := by
    rw [settingsOf, Table.keys, Table.keys, List.map_filterMap, List.filterMap_map]
    refine List.filterMap_congr fun m _ => ?_
    simp [Function.comp_def]
  rw [hkeys]
  refine h.filterMap fun name name' key hkey hkey' => ?_
  rw [settingOf?_eq_some_iff.mp hkey, settingOf?_eq_some_iff.mp hkey']

end Source

/-! ### What variables leave in a table -/

namespace Layered

/-- The key of the fallback is not written where the fallback is the initial one and the value is
that of a variable. -/
theorem assign_fallbackKey {t : Layered} (hfallback : t.fallback = .initial)
    (hheld : t.holds fallbackKey = false) {v : Value} (hv : v.IsHeld) :
    t.assign fallbackKey v = t := by
  have hreplaces : t.replacesFallback fallbackKey = true := by
    simp [replacesFallback, hheld, hfallback, Fallback.initial]
  have hsame : t.fallback.replacedBy v = t.fallback := by
    rcases hv with rfl | ⟨s, rfl⟩ <;> rfl
  rw [assign, if_pos hreplaces, hsame]

/-- Any other key is written as it is. -/
theorem assign_of_ne {t : Layered} (hfallback : t.fallback = .initial) {key : String}
    (hkey : key ≠ fallbackKey) (v : Value) :
    t.assign key v = { t with values := t.values.set key v } := by
  simp [assign, replacesFallback, isTakenByError, hkey, hfallback, Fallback.initial]

/-- **Variables are written one after the other, except for the key of the fallback.** -/
theorem values_assignAll {settings : List (String × Value)} (hvalues : ∀ m ∈ settings, m.2.IsHeld)
    {t : Layered} (hfallback : t.fallback = .initial) (hheld : t.holds fallbackKey = false) :
    (t.assignAll settings).values
      = t.values.setAll (settings.filter fun m => m.1 != fallbackKey) := by
  induction settings generalizing t with
  | nil => rfl
  | cons m rest ih =>
    obtain ⟨key, v⟩ := m
    obtain ⟨hv, hrest⟩ := List.forall_mem_cons.mp hvalues
    have hstep : t.assignAll ((key, v) :: rest) = (t.assign key v).assignAll rest := rfl
    rw [hstep]
    by_cases hkey : key = fallbackKey
    · subst hkey
      rw [assign_fallbackKey hfallback hheld hv, ih hrest hfallback hheld,
        List.filter_cons_of_neg (by simp)]
    · rw [assign_of_ne hfallback hkey, List.filter_cons_of_pos (by simpa using hkey)]
      refine ih hrest (t := { t with values := t.values.set key v }) hfallback ?_
      rw [holds, Table.get?_set_of_ne _ _ hkey]
      exact hheld

end Layered

namespace Source

variable {start : String} {held : Table Value}

/-- **What an environment leaves** is what its variables hold. -/
theorem ofVariables_eq (start : String) (h : IsEnvironment held) :
    ofVariables start held
      = (settingsOf start (Table.ordered held)).filter fun m => m.1 != Layered.fallbackKey := by
  have hvalues : ∀ m ∈ settingsOf start (Table.ordered held), m.2.IsHeld := by
    rintro ⟨key, v⟩ hm
    exact h.texts (start ++ key, v) ((Table.ordered_perm held).mem_iff.mp (mem_settingsOf.mp hm))
  have hkeys := nodup_keys_settingsOf start (Table.nodup_keys_ordered h.once)
  rw [ofVariables, Layered.values_assignAll hvalues rfl rfl]
  exact Table.ofList_of_nodup (hkeys.sublist ((List.filter_sublist).map Prod.fst))

theorem nodup_keys_ofVariables (start : String) (h : IsEnvironment held) :
    (ofVariables start held).keys.Nodup := by
  rw [ofVariables_eq start h]
  exact (nodup_keys_settingsOf start (Table.nodup_keys_ordered h.once)).sublist
    ((List.filter_sublist).map Prod.fst)

theorem mem_ofVariables (h : IsEnvironment held) {key : String} {v : Value} :
    (key, v) ∈ ofVariables start held ↔
      key ≠ Layered.fallbackKey ∧ (start ++ key, v) ∈ held := by
  rw [ofVariables_eq start h, List.mem_filter, mem_settingsOf, (Table.ordered_perm held).mem_iff]
  simp [and_comm]

end Source

/-- **What an environment gives a key** is the text of one variable. -/
theorem given?_environment (start : String) {held : Table Value} (h : IsEnvironment held)
    (key : String) :
    (Source.environment start held).given? key
      = if key = Layered.fallbackKey then none else (heldText? held (start ++ key)).map .text := by
  have hload : (Source.environment start held).load
      = .ok (Table.ordered (Source.ofVariables start held)) := rfl
  have hkeys := Table.nodup_keys_ordered (Source.nodup_keys_ofVariables start h)
  refine Option.ext fun v => ?_
  rw [Source.given?_eq_some_iff hload hkeys]
  have hget : (Table.ordered (Source.ofVariables start held)).get? key = some v ↔
      key ≠ Layered.fallbackKey ∧ held.get? (start ++ key) = some v := by
    rw [Table.get?_eq_some_iff hkeys, (Table.ordered_perm _).mem_iff, Source.mem_ofVariables h,
      Table.get?_eq_some_iff h.once]
  rw [hget]
  by_cases hkey : key = Layered.fallbackKey
  · simp [hkey]
  · rw [if_neg hkey, Option.map_eq_some_iff]
    constructor
    · rintro ⟨⟨-, hv⟩, hdefined⟩
      have hheld : v.IsHeld := h.texts _ (Table.mem_of_get? hv)
      rcases hheld with rfl | ⟨s, rfl⟩
      · cases hdefined
      · exact ⟨s, heldText?_eq_some_iff.mpr hv, rfl⟩
    · rintro ⟨s, hs, rfl⟩
      exact ⟨⟨hkey, heldText?_eq_some_iff.mp hs⟩, rfl⟩

/-! ### Loading an environment -/

section Loading

variable {start : String} {held : Table Value}

/-- What an environment leaves to be merged. -/
theorem lastGiven_environment (h : IsEnvironment held) (key : String) :
    lastGiven (rawSettings [.environment start held]) key
      = if key = Layered.fallbackKey then none
        else (heldText? held (start ++ key)).map fun s => ⟨"env", key, .text s⟩ := by
  have hgiven := given?_environment start h key
  by_cases hkey : key = Layered.fallbackKey
  · rw [if_pos hkey] at hgiven ⊢
    exact lastGiven_of_none (by simpa using hgiven)
  · rw [if_neg hkey] at hgiven ⊢
    cases hheld : heldText? held (start ++ key) with
    | none =>
      rw [hheld] at hgiven
      exact lastGiven_of_none (by simpa using hgiven)
    | some s =>
      rw [hheld] at hgiven
      exact @lastGiven_of_last [] [] _ key _ hgiven (by simp)

theorem isGiven_environment_iff (h : IsEnvironment held) {key : String} :
    IsGiven (rawSettings [.environment start held]) key ↔
      key ≠ Layered.fallbackKey ∧ (heldText? held (start ++ key)).isSome = true := by
  rw [← isSome_lastGiven_iff, lastGiven_environment h]
  by_cases hkey : key = Layered.fallbackKey <;> simp [hkey]

/-- The fallback is not replaced. -/
theorem not_isGiven_fallbackKey (h : IsEnvironment held) :
    ¬IsGiven (rawSettings [.environment start held]) Layered.fallbackKey := fun hgiven =>
  ((isGiven_environment_iff h).mp hgiven).1 rfl

theorem outcome_environment (start : String) (held : Table Value) :
    (Merged.ofSources [.environment start held]).outcome
      = .ok (Merged.empty.replay (rawSettings [.environment start held])) :=
  Merged.outcome_ofSources_iff.mpr ⟨by simp [Source.load], rfl⟩

/-- Environments that agree on three variables have the same outcome. -/
theorem readSettings_environment {held' : Table Value} (h : IsEnvironment held)
    (h' : IsEnvironment held')
    (hagree : ∀ k : SettingKey,
      heldText? held (start ++ k.name) = heldText? held' (start ++ k.name))
    (now : Int) (logger : Log.Logger) :
    (readSettings now logger [.environment start held]).1
      = (readSettings now logger [.environment start held']).1 := by
  have hlast : ∀ k : SettingKey, lastGiven (rawSettings [.environment start held]) k.name
      = lastGiven (rawSettings [.environment start held']) k.name := fun k => by
    rw [lastGiven_environment h, lastGiven_environment h', hagree]
  refine readSettings_congr (outcome_environment start held) (outcome_environment start held')
    (fun k => ?_) (fun k => ?_) now logger
  · rw [Merged.lookup_replay_of_not_isGiven (not_isGiven_fallbackKey h),
      Merged.lookup_replay_of_not_isGiven (not_isGiven_fallbackKey h'), hlast]
  · have hk := (Layered.isOrdinary_name k).1
    rw [Merged.sourceOf, Merged.sourceOf, Merged.provenance_replay hk,
      Merged.provenance_replay hk, hlast]

/-- Unknown settings of an environment are reported. -/
theorem reported_environment (h : IsEnvironment held) : Reported [.environment start held] :=
  (reported_iff (outcome_environment start held)).mpr fun _ _ hkey =>
    Merged.holds_of_isGiven_of_initial rfl (not_isGiven_fallbackKey h) (Or.inl hkey)

end Loading

/-- **Of an environment only the variables of the three settings matter.** Two environments that
agree on them are loaded alike, at the same instant and over the same base: the outcome – options or
error – and the registry that is left are the same, with any two loggers. And if settings are
accepted and the logger lets warnings through, one warning lists the keys of the superfluous
variables, each once; there is none if there are no such variables. -/
theorem load_of_environments {start : String} {held held' : Table Value}
    (h : IsEnvironment held) (h' : IsEnvironment held')
    (hagree : ∀ k : SettingKey,
      heldText? held (start ++ k.name) = heldText? held' (start ++ k.name)) :
    (∀ (r : Registry) (now : Int) (logger logger' : Log.Logger) (base : OptionsId),
      (r.load now logger [.environment start held] base).1
        = (r.load now logger' [.environment start held'] base).1) ∧
    ∀ (r : Registry) (now : Int) (logger : Log.Logger) (base : OptionsId) (fields : Options),
      r.loaded now logger [.environment start held] base = .ok fields →
        logger.admits .warn = true →
          ∃ keys : List String, keys.Nodup ∧
            (∀ key, key ∈ keys ↔ IsSuperfluous start held key) ∧
            warnings (r.load now logger [.environment start held] base).2
              = if keys = [] then [] else [some (.list (keys.map .text))] := by
  refine ⟨fun r now logger logger' base => ?_, fun r now logger base fields hload hlogger => ?_⟩
  · refine Registry.load_congr ?_ r base
    rw [readSettings_environment h h' hagree, readSettings_logger]
  · obtain ⟨keys, hnodup, hmem, hwarn⟩ :=
      reported_environment h r now logger base fields hload hlogger
    refine ⟨keys, hnodup, fun key => ?_, hwarn⟩
    rw [hmem, isGiven_environment_iff h, IsSuperfluous]
    tauto

/-- The first environment has four more variables than the second, which has one more without a
value. It is warned of two of them: one is named as the beginning alone. -/
theorem load_of_environments_polluted :
    let held : Table Value := [("C_SYNTAX", .text "JSON"), ("C_X", .text "1"), ("C_", .text ""),
      ("C___proto__", .text "p"), ("PATH", .text "/bin")]
    let held' : Table Value := [("C_ORIGIN", .undefined), ("C_SYNTAX", .text "JSON")]
    let r : Registry := ⟨[.defaults], 0⟩
    IsEnvironment held ∧ IsEnvironment held' ∧
      (∀ k : SettingKey, heldText? held ("C_" ++ k.name) = heldText? held' ("C_" ++ k.name)) ∧
      (r.load 0 .null [.environment "C_" held] ⟨0⟩).1
        = (r.load 0 .null [.environment "C_" held'] ⟨0⟩).1 ∧
      ∃ keys : List String, keys.Nodup ∧ "X" ∈ keys ∧ "" ∈ keys ∧ "__proto__" ∉ keys ∧
        warnings (r.load 0 (.bound (.atLeast .warn) .nested []) [.environment "C_" held] ⟨0⟩).2
          = [some (.list (keys.map .text))] := by
  intro held held' r
  have h : IsEnvironment held :=
    ⟨by decide, by simp [held, Value.IsHeld]⟩
  have h' : IsEnvironment held' :=
    ⟨by decide, by simp [held', Value.IsHeld]⟩
  have hagree : ∀ k : SettingKey,
      heldText? held ("C_" ++ k.name) = heldText? held' ("C_" ++ k.name) := by
    intro k
    cases k <;> decide
  obtain ⟨hsame, hwarns⟩ := load_of_environments h h' hagree
  obtain ⟨s, hs⟩ : ∃ s, Settings.check
      (Merged.empty.replay (rawSettings [.environment "C_" held])).lookup = .ok s := by
    refine Settings.exists_check_iff.mpr fun k => ?_
    rw [Merged.lookup_replay_of_not_isGiven (not_isGiven_fallbackKey h), lastGiven_environment h]
    cases k <;> decide
  have hloaded : r.loaded 0 (.bound (.atLeast .warn) .nested []) [.environment "C_" held] ⟨0⟩
      = .ok (Options.defaults.withSettings s) := by
    rw [Registry.loaded_eq, readSettings_of_outcome (outcome_environment "C_" held), hs]
    rfl
  obtain ⟨keys, hnodup, hmem, hwarn⟩ := hwarns _ _ _ _ _ hloaded rfl
  have hx : "X" ∈ keys := (hmem "X").mpr ⟨by decide, by decide, by decide⟩
  rw [if_neg (List.ne_nil_of_mem hx)] at hwarn
  exact ⟨h, h', hagree, hsame r 0 .null .null ⟨0⟩, keys, hnodup, hx,
    (hmem "").mpr ⟨by decide, by decide, by decide⟩,
    fun hproto => ((hmem "__proto__").mp hproto).2.1 rfl, hwarn⟩

end ConfigSource
