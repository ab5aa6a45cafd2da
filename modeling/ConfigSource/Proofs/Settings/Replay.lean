import ConfigSource.Proofs.Table
import ConfigSource.Settings.Merge
import ConfigSource.Settings.Schema

/-!
# Merging as a replay of writes

The merged table is the replay of a list of writes: every source contributes what it gives, in its
reading order, and the sources follow one another
(`ConfigSource.Merged.outcome_ofSources_iff`). What the replay leaves under a key is read off that
list.

* Under an **ordinary** key stands the value of the **last** write that is not `undefined`, and its
  provenance is the source of that write (`ConfigSource.Merged.get?_replay`,
  `ConfigSource.Merged.provenance_replay`). The keys of all known settings are ordinary.
* Two keys are not. `__proto__` replaces the fallback, and `stack` can be taken by an error that is
  the fallback. A write to one of them may leave no member behind, but what is held was always
  given (`ConfigSource.Merged.isGiven_of_holds`).
-/

namespace ConfigSource

/-! ### Writes -/

/-- A setting as a source gives it. -/
structure RawSetting where
  /-- The name of the source. -/
  source : String
  /-- The key. -/
  key : String
  /-- The value. -/
  value : Value

/-- Whether a setting gives a key something to merge: `undefined` is not merged. -/
def RawSetting.gives (w : RawSetting) (key : String) : Bool :=
  w.key == key && !w.value.isUndefined

theorem RawSetting.gives_iff {w : RawSetting} {key : String} :
    w.gives key = true ↔ w.key = key ∧ w.value.isUndefined = false := by
  simp [gives]

/-- The settings of a source, in reading order; none if it fails. -/
def Source.rawSettings (s : Source) : List RawSetting :=
  match s.load with
  | .ok settings => settings.map fun m => ⟨s.name, m.1, m.2⟩
  | .error _ => []

theorem Source.rawSettings_of_load {s : Source} {settings : Table Value}
    (h : s.load = .ok settings) :
    s.rawSettings = settings.map fun m => ⟨s.name, m.1, m.2⟩ := by
  simp only [rawSettings, h]

/-- A table without index keys gives its members as they were written. -/
theorem Source.rawSettings_object (name : String) {values : Table Value}
    (h : ∀ m ∈ values, Table.indexKey? m.1 = none) :
    (Source.object name values).rawSettings = values.map fun m => ⟨name, m.1, m.2⟩ :=
  rawSettings_of_load (s := .object name values) (congrArg Except.ok (Table.ordered_of_noIndex h))

/-- The settings of a source are under its name. -/
theorem Source.source_of_mem_rawSettings {s : Source} {w : RawSetting}
    (h : w ∈ s.rawSettings) : w.source = s.name := by
  unfold rawSettings at h
  split at h
  · obtain ⟨m, -, rfl⟩ := List.mem_map.mp h
    rfl
  · cases h

theorem Source.rawSettings_of_failure {s : Source} {e : Value} (h : s.load = .error e) :
    s.rawSettings = [] := by
  simp only [rawSettings, h]

/-- The settings of a list of sources, one source after the other. -/
def rawSettings (sources : List Source) : List RawSetting := sources.flatMap Source.rawSettings

theorem rawSettings_append (sources sources' : List Source) :
    rawSettings (sources ++ sources') = rawSettings sources ++ rawSettings sources' :=
  List.flatMap_append

theorem rawSettings_cons (s : Source) (sources : List Source) :
    rawSettings (s :: sources) = s.rawSettings ++ rawSettings sources :=
  List.flatMap_cons

/-- Some setting gives the key a value. -/
def IsGiven (ws : List RawSetting) (key : String) : Prop := ∃ w ∈ ws, w.gives key = true

/-- The last setting that gives the key a value. -/
def lastGiven (ws : List RawSetting) (key : String) : Option RawSetting :=
  ws.reverse.find? (·.gives key)

@[simp] theorem lastGiven_nil (key : String) : lastGiven [] key = none := rfl

theorem lastGiven_cons (w : RawSetting) (ws : List RawSetting) (key : String) :
    lastGiven (w :: ws) key = (lastGiven ws key).or (if w.gives key then some w else none) := by
  rw [lastGiven, List.reverse_cons, List.find?_append, lastGiven]
  by_cases h : w.gives key = true <;> simp [h]

theorem lastGiven_append (ws ws' : List RawSetting) (key : String) :
    lastGiven (ws ++ ws') key = (lastGiven ws' key).or (lastGiven ws key) := by
  rw [lastGiven, List.reverse_append, List.find?_append, lastGiven, lastGiven]

/-- What was given last was given. -/
theorem mem_of_lastGiven {ws : List RawSetting} {key : String} {w : RawSetting}
    (h : lastGiven ws key = some w) : w ∈ ws ∧ w.gives key = true := by
  unfold lastGiven at h
  exact ⟨List.mem_reverse.mp (List.mem_of_find?_eq_some h), by simpa using List.find?_some h⟩

theorem isSome_lastGiven_iff {ws : List RawSetting} {key : String} :
    (lastGiven ws key).isSome ↔ IsGiven ws key := by
  simp [lastGiven, IsGiven]

/-- The last setting of a key is found among the settings of the keys that are kept. -/
theorem lastGiven_filter {keep : String → Bool} {key : String} (hkey : keep key = true)
    (ws : List RawSetting) : lastGiven (ws.filter fun w => keep w.key) key = lastGiven ws key := by
  induction ws with
  | nil => rfl
  | cons w ws ih =>
    rw [List.filter_cons]
    split
    · rw [lastGiven_cons, lastGiven_cons, ih]
    · next hw =>
      have h : ¬w.gives key = true := fun h => hw (by rw [(RawSetting.gives_iff.mp h).1, hkey])
      rw [ih, lastGiven_cons, if_neg h, Option.or_none]

/-! ### One write -/

namespace Layered

/-- A key that is written as any other: it neither replaces the fallback nor can be taken by it. -/
def IsOrdinary (key : String) : Prop := key ≠ fallbackKey ∧ key ≠ stackKey

instance (key : String) : Decidable (IsOrdinary key) := inferInstanceAs (Decidable (_ ∧ _))

theorem isOrdinary_name (k : SettingKey) : IsOrdinary k.name := by
  cases k <;> decide

/-- **What a write can do**: replace the fallback, be taken by it, or write a member. -/
theorem assign_cases (t : Layered) (key : String) (v : Value) :
    (key = fallbackKey ∧ t.assign key v = { t with fallback := t.fallback.replacedBy v }) ∨
      (key = stackKey ∧ t.assign key v = t) ∨
      t.assign key v = { t with values := t.values.set key v } := by
  unfold assign
  split
  · next h =>
    simp only [replacesFallback, Bool.and_eq_true, beq_iff_eq] at h
    exact Or.inl ⟨h.1.1, rfl⟩
  · split
    · next h =>
      simp only [isTakenByError, Bool.and_eq_true, beq_iff_eq] at h
      exact Or.inr (Or.inl ⟨h.1.1, rfl⟩)
    · exact Or.inr (Or.inr rfl)

/-- An ordinary key is changed by the writes to it alone. -/
theorem get?_assign {other : String} (h : IsOrdinary other) (t : Layered) (key : String)
    (v : Value) :
    (t.assign key v).values.get? other = if key = other then some v else t.values.get? other := by
  rcases assign_cases t key v with ⟨hk, ht⟩ | ⟨hk, ht⟩ | ht
  · rw [ht, if_neg (hk ▸ Ne.symm h.1)]
  · rw [ht, if_neg (hk ▸ Ne.symm h.2)]
  · rw [ht, Table.get?_set]

theorem holds_iff {t : Layered} {key : String} : t.holds key = true ↔ key ∈ t.values.keys :=
  Table.isSome_get?_iff

end Layered

/-! ### The replay -/

namespace Merged

/-- Merges one setting. -/
def write (m : Merged) (w : RawSetting) : Merged := m.assign w.source w.key w.value

/-- Merges settings one after the other. -/
def replay (m : Merged) (ws : List RawSetting) : Merged := ws.foldl write m

@[simp] theorem replay_nil (m : Merged) : m.replay [] = m := rfl

@[simp] theorem replay_cons (m : Merged) (w : RawSetting) (ws : List RawSetting) :
    m.replay (w :: ws) = (m.write w).replay ws := rfl

theorem replay_append (m : Merged) (ws ws' : List RawSetting) :
    m.replay (ws ++ ws') = (m.replay ws).replay ws' := List.foldl_append

/-- What every write keeps is kept by a replay. -/
theorem replay_induction {P : Merged → Prop} (ws : List RawSetting)
    (hstep : ∀ m w, w ∈ ws → P m → P (m.write w)) {m : Merged} (hm : P m) : P (m.replay ws) := by
  induction ws generalizing m with
  | nil => exact hm
  | cons w ws ih =>
    exact ih (fun m w' hw' => hstep m w' (List.mem_cons_of_mem _ hw'))
      (hstep m w List.mem_cons_self hm)

theorem write_of_undefined {w : RawSetting} (h : w.value.isUndefined = true) (m : Merged) :
    m.write w = m := by
  simp [write, assign, h]

theorem write_of_defined {w : RawSetting} (h : w.value.isUndefined = false) (m : Merged) :
    m.write w = ⟨m.table.assign w.key w.value, recordProvenance m.provenance w.key w.source⟩ := by
  simp [write, assign, h]

theorem assignAll_eq_replay (m : Merged) (source : String) (settings : Table Value) :
    m.assignAll source settings = m.replay (settings.map fun s => ⟨source, s.1, s.2⟩) := by
  rw [assignAll, replay, List.foldl_map]
  rfl

/-- The settings of several sources are merged by a replay, if all of them load. -/
theorem outcome_addSources_iff {sources : List Source} {m merged : Merged} {loaded : Nat} :
    (m.addSources loaded sources).outcome = .ok merged ↔
      (∀ s ∈ sources, ∃ settings, s.load = .ok settings) ∧
        merged = m.replay (rawSettings sources) := by
  induction sources generalizing m loaded with
  | nil => simp [addSources, rawSettings, eq_comm]
  | cons s rest ih =>
    cases hs : s.load with
    | error e => simp [addSources, hs]
    | ok settings =>
      have hraw : rawSettings (s :: rest)
          = (settings.map fun x => ⟨s.name, x.1, x.2⟩) ++ rawSettings rest := by
        simp [rawSettings, Source.rawSettings_of_load hs]
      simp only [addSources, hs, ih, hraw, replay_append, ← assignAll_eq_replay,
        List.forall_mem_cons, Except.ok.injEq, exists_eq', true_and]

/-- **The merged table of sources is the replay of their settings**, if all of them load. -/
theorem outcome_ofSources_iff {sources : List Source} {merged : Merged} :
    (ofSources sources).outcome = .ok merged ↔
      (∀ s ∈ sources, ∃ settings, s.load = .ok settings) ∧
        merged = empty.replay (rawSettings sources) :=
  outcome_addSources_iff

/-! ### What stands under a key -/

theorem get?_write {key : String} (h : Layered.IsOrdinary key) (m : Merged) (w : RawSetting) :
    (m.write w).table.values.get? key
      = if w.gives key then some w.value else m.table.values.get? key := by
  cases hw : w.value.isUndefined with
  | true => simp [write_of_undefined hw, RawSetting.gives, hw]
  | false => simp [write_of_defined hw, Layered.get?_assign h, RawSetting.gives, hw]

theorem provenance_write {key : String} (h : key ≠ Layered.fallbackKey) (m : Merged)
    (w : RawSetting) :
    (m.write w).provenance.get? key
      = if w.gives key then some w.source else m.provenance.get? key := by
  cases hw : w.value.isUndefined with
  | true => simp [write_of_undefined hw, RawSetting.gives, hw]
  | false =>
    by_cases hk : w.key = Layered.fallbackKey
    · simp [write_of_defined hw, recordProvenance, RawSetting.gives, hk, Ne.symm h]
    · simp [write_of_defined hw, recordProvenance, RawSetting.gives, hk, hw, Table.get?_set]

/-- **The last value wins.** -/
theorem get?_replay {key : String} (h : Layered.IsOrdinary key) (m : Merged)
    (ws : List RawSetting) :
    (m.replay ws).table.values.get? key
      = ((lastGiven ws key).map RawSetting.value).or (m.table.values.get? key) := by
  induction ws generalizing m with
  | nil => simp
  | cons w ws ih =>
    rw [replay_cons, ih, get?_write h, lastGiven_cons]
    cases lastGiven ws key with
    | some last => simp
    | none => by_cases hw : w.gives key = true <;> simp [hw]

/-- **The provenance of a value is the source that gave it last.** -/
theorem provenance_replay {key : String} (h : key ≠ Layered.fallbackKey) (m : Merged)
    (ws : List RawSetting) :
    (m.replay ws).provenance.get? key
      = ((lastGiven ws key).map RawSetting.source).or (m.provenance.get? key) := by
  induction ws generalizing m with
  | nil => simp
  | cons w ws ih =>
    rw [replay_cons, ih, provenance_write h, lastGiven_cons]
    cases lastGiven ws key with
    | some last => simp
    | none => by_cases hw : w.gives key = true <;> simp [hw]

/-! ### What the merged table holds -/

/-- No key is held twice. -/
theorem nodup_keys_replay (ws : List RawSetting) : (empty.replay ws).table.values.keys.Nodup := by
  refine replay_induction (P := fun m => m.table.values.keys.Nodup) ws (fun m w _ hm => ?_)
    List.nodup_nil
  cases hw : w.value.isUndefined with
  | true => rwa [write_of_undefined hw]
  | false =>
    rw [write_of_defined hw]
    rcases Layered.assign_cases m.table w.key w.value with ⟨-, ht⟩ | ⟨-, ht⟩ | ht
    · rwa [ht]
    · rwa [ht]
    · rw [ht]
      exact Table.nodup_keys_set hm _ _

/-- **What is held was given.** -/
theorem isGiven_of_holds {ws : List RawSetting} {key : String}
    (h : (empty.replay ws).table.holds key = true) : IsGiven ws key := by
  refine replay_induction (P := fun m => m.table.holds key = true → IsGiven ws key) ws
    (fun m w hw hm hkey => ?_) (fun hkey => ?_) h
  · cases hu : w.value.isUndefined with
    | true => exact hm (by rwa [write_of_undefined hu] at hkey)
    | false =>
      rw [write_of_defined hu, Layered.holds_iff] at hkey
      rw [Layered.holds_iff] at hm
      rcases Layered.assign_cases m.table w.key w.value with ⟨-, ht⟩ | ⟨-, ht⟩ | ht
      · exact hm (by rwa [ht] at hkey)
      · exact hm (by rwa [ht] at hkey)
      · rw [ht, Table.mem_keys_set] at hkey
        rcases hkey with rfl | hkey
        · exact ⟨w, hw, RawSetting.gives_iff.mpr ⟨rfl, hu⟩⟩
        · exact hm hkey
  · simp [Layered.holds, empty, Layered.empty] at hkey

/-- **An ordinary key that is given is held.** -/
theorem holds_of_isGiven {ws : List RawSetting} {key : String} (h : Layered.IsOrdinary key)
    (hkey : IsGiven ws key) : (empty.replay ws).table.holds key = true := by
  have hlast := isSome_lastGiven_iff.mpr hkey
  rw [Layered.holds, get?_replay h]
  cases hw : lastGiven ws key with
  | none => simp [hw] at hlast
  | some w => simp

/-- Over the initial fallback every key is held that is given, unless it replaces the fallback. -/
theorem holds_of_isGiven_of_initial {ws : List RawSetting} {m : Merged}
    (hm : m.table.fallback = .initial) (h : ¬IsGiven ws Layered.fallbackKey) {key : String}
    (hkey : IsGiven ws key ∨ m.table.holds key = true) : (m.replay ws).table.holds key = true := by
  induction ws generalizing m with
  | nil => exact hkey.resolve_left (by simp [IsGiven])
  | cons w ws ih =>
    have hrest : ¬IsGiven ws Layered.fallbackKey := fun ⟨w', hw', hgives⟩ =>
      h ⟨w', List.mem_cons_of_mem _ hw', hgives⟩
    cases hu : w.value.isUndefined with
    | true =>
      rw [replay_cons, write_of_undefined hu]
      refine ih hm hrest (hkey.imp_left ?_)
      rintro ⟨w', hw', hgives⟩
      rcases List.mem_cons.mp hw' with rfl | hw'
      · exact absurd (RawSetting.gives_iff.mp hgives).2 (by simp [hu])
      · exact ⟨w', hw', hgives⟩
    | false =>
      have hne : w.key ≠ Layered.fallbackKey := fun he =>
        h ⟨w, List.mem_cons_self, RawSetting.gives_iff.mpr ⟨he, hu⟩⟩
      have htable : (m.write w).table
          = { m.table with values := m.table.values.set w.key w.value } := by
        simp [write_of_defined hu, Layered.assign, Layered.replacesFallback, Layered.isTakenByError,
          hne, hm, Fallback.initial]
      rw [replay_cons]
      refine ih (by rw [htable]; exact hm) hrest ?_
      rw [Layered.holds_iff] at hkey ⊢
      rw [htable, Table.mem_keys_set]
      rcases hkey with ⟨w', hw', hgives⟩ | hheld
      · rcases List.mem_cons.mp hw' with rfl | hw'
        · exact Or.inr (Or.inl (RawSetting.gives_iff.mp hgives).1.symm)
        · exact Or.inl ⟨w', hw', hgives⟩
      · exact Or.inr (Or.inr hheld)

/-- The fallback is replaced only by its own key. -/
theorem fallback_replay {ws : List RawSetting} (h : ¬IsGiven ws Layered.fallbackKey) :
    (empty.replay ws).table.fallback = .initial := by
  refine replay_induction (P := fun m => m.table.fallback = .initial) ws (fun m w hw hm => ?_) rfl
  cases hu : w.value.isUndefined with
  | true => rwa [write_of_undefined hu]
  | false =>
    rw [write_of_defined hu]
    rcases Layered.assign_cases m.table w.key w.value with ⟨hk, -⟩ | ⟨-, ht⟩ | ht
    · exact absurd ⟨w, hw, RawSetting.gives_iff.mpr ⟨hk, hu⟩⟩ h
    · rwa [ht]
    · rwa [ht]

end Merged

end ConfigSource
