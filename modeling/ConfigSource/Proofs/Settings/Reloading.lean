import ConfigSource.Proofs.Options.Copies
import ConfigSource.Proofs.Settings.Grammar
import ConfigSource.Proofs.Settings.LastGiven
import ConfigSource.Proofs.Settings.Successive

/-!
# Loading once more

Loading is **settled** after the first time: settings that were loaded change nothing when they are
loaded again, so no instance is made and the one that came of them is given back
(`ConfigSource.Registry.load_again`). This holds as letters of either case and words for truth
values are read as what they stand for before they are compared with what is set.

Options can be **written down** as settings (`ConfigSource.Options.written`). Loading these gives
the options back, except that what is written without a value leaves the base alone
(`ConfigSource.Registry.load_written`). An empty origin description is the one thing that cannot be
written down: a source may not give it.
-/

namespace ConfigSource

/-! ### Options as settings -/

namespace Options

/-- What options say, as settings. -/
def settings (fields : Options) : Settings :=
  ⟨fields.dialect, fields.originDescription, some fields.allowMissing⟩

/-- Options as a source writes them down; what is not set is written as `undefined`. -/
def written (fields : Options) : Table Value :=
  [(SettingKey.dialect.name, .ofOption (fields.dialect.map fun d => .text d.name)),
    (SettingKey.origin.name, .ofOption (fields.originDescription.map .text)),
    (SettingKey.allowMissing.name, .bool fields.allowMissing)]

theorem get?_written (fields : Options) (k : SettingKey) :
    fields.written.get? k.name = some (.ofOption (fields.settings.valueOf k)) := by
  cases k <;> rfl

theorem keys_written (fields : Options) :
    fields.written.keys = SettingKey.all.map SettingKey.name := rfl

/-- **Applying settings twice is applying them once.** -/
theorem withSettings_withSettings (fields : Options) (s : Settings) :
    (fields.withSettings s).withSettings s = fields.withSettings s := by
  obtain ⟨dialect, origin, allowMissing⟩ := s
  cases dialect <;> cases origin <;> cases allowMissing <;> rfl

/-- Options have what they say themselves. -/
theorem withSettings_settings (fields : Options) :
    fields.withSettings fields.settings = fields := by
  simp [withSettings, settings]

end Options

namespace Settings

/-- What settings have under a key is a value. -/
theorem isUndefined_of_valueOf {s : Settings} {k : SettingKey} {v : Value}
    (h : s.valueOf k = some v) : v.isUndefined = false := by
  cases k <;> (obtain ⟨a, -, rfl⟩ := Option.map_eq_some_iff.mp h; rfl)

end Settings

/-! ### Sources that write options down -/

theorem rawSettings_singleton (source : Source) : rawSettings [source] = source.rawSettings :=
  List.flatMap_singleton _ _

section Written

variable (name : String) (fields : Options)

theorem load_object_written :
    (Source.object name fields.written).load = .ok fields.written := by
  refine congrArg Except.ok (Table.ordered_of_noIndex ?_)
  simp only [Options.written, List.forall_mem_cons, List.not_mem_nil, false_imp_iff, implies_true]
  decide

/-- **What is written down is given**, and nothing else. -/
theorem given?_written (k : SettingKey) :
    (Source.object name fields.written).given? k.name = fields.settings.valueOf k := by
  refine Option.ext fun v => ?_
  have hkeys : fields.written.keys.Nodup := by
    rw [Options.keys_written]
    decide
  rw [Source.given?_eq_some_iff (load_object_written name fields) hkeys, Options.get?_written,
    Option.some_inj]
  constructor
  · rintro ⟨rfl, hdefined⟩
    cases hvalue : fields.settings.valueOf k with
    | none => simp [hvalue, Value.ofOption, Value.isUndefined] at hdefined
    | some v => rfl
  · intro hvalue
    rw [hvalue]
    exact ⟨rfl, Settings.isUndefined_of_valueOf hvalue⟩

/-- Nothing is written under the key of the fallback. -/
theorem not_isGiven_written :
    ¬IsGiven (rawSettings [.object name fields.written]) Layered.fallbackKey := by
  rintro ⟨w, hw, hgives⟩
  rw [rawSettings_singleton, Source.rawSettings_of_load (load_object_written name fields)] at hw
  obtain ⟨m, hm, rfl⟩ := List.mem_map.mp hw
  have hkey : m.1 ∈ SettingKey.all.map SettingKey.name := by
    rw [← Options.keys_written fields]
    exact List.mem_map_of_mem hm
  rw [show m.1 = Layered.fallbackKey from (RawSetting.gives_iff.mp hgives).1] at hkey
  exact absurd hkey (by decide)

theorem lookup_written (k : SettingKey) :
    (Merged.empty.replay (rawSettings [.object name fields.written])).lookup k.name
      = .ofOption (fields.settings.valueOf k) := by
  rw [Merged.lookup_replay_of_not_isGiven (not_isGiven_written name fields),
    rawSettings_singleton, ← given?_written name fields k, Source.given?]

end Written

/-! ### Loading -/

namespace Registry

variable {r r' : Registry} {base o : OptionsId}

/-- An update by a setting that the options have already. -/
theorem updateWith_of_same {α : Type} {setting : Option α}
    {update : Registry → OptionsId → α → OptionsId × Registry}
    (h : ∀ a, setting = some a → update r o a = (o, r)) :
    r.updateWith o setting update = (o, r) := by
  cases setting with
  | none => rfl
  | some a => exact h a rfl

/-- **Settings that change nothing make nothing.** -/
theorem applySettings_of_same {s : Settings} (h : (r.read o).withSettings s = r.read o) :
    r.applySettings o s = (o, r) := by
  have hdialect : r.updateWith o s.dialect (fun r o d => r.withDialect o (some d)) = (o, r) :=
    updateWith_of_same fun d hd => if_pos (by rw [← h, Options.withSettings, hd]; rfl)
  have horigin : r.updateWith o s.origin (fun r o d => r.withOriginDescription o (some d))
      = (o, r) :=
    updateWith_of_same fun d hd => if_pos (by rw [← h, Options.withSettings, hd]; rfl)
  have hmissing : r.updateWith o s.allowMissing withAllowMissing = (o, r) :=
    updateWith_of_same fun b hb => if_pos (by rw [← h, Options.withSettings, hb]; rfl)
  simp only [applySettings, hdialect, horigin, hmissing]

/-- Loading that succeeds, with the settings that it applies. -/
theorem load_eq_ok_applied {now : Int} {logger : Log.Logger} {sources : List Source}
    (h : (r.load now logger sources base).1 = (.ok o, r')) :
    ∃ s, r.applySettings base s = (o, r') ∧
      ∀ (later : Registry) (now : Int) (logger : Log.Logger) (other : OptionsId),
        (later.load now logger sources other).1
          = (.ok (later.applySettings other s).1, (later.applySettings other s).2) := by
  obtain ⟨s, hcheck, hloads, -⟩ := load_eq_ok h
  have hload := load_of_check hloads hcheck
  rw [hload r] at h
  exact ⟨s, Prod.ext (Except.ok.inj (Prod.mk.inj h).1) (Prod.mk.inj h).2, hload⟩

/-- **What was loaded is loaded again without a change**: the instance is given back, and nothing
is made. -/
theorem load_again (hbase : r.Has base) {now : Int} {logger : Log.Logger} {sources : List Source}
    (h : (r.load now logger sources base).1 = (.ok o, r')) {later : Registry}
    (hlater : r'.instances <+: later.instances) (now' : Int) (logger' : Log.Logger) :
    (later.load now' logger' sources o).1 = (.ok o, later) := by
  obtain ⟨s, happlied, hload⟩ := load_eq_ok_applied h
  have hcopies := copies_applySettings hbase s
  have hread := read_applySettings r base s
  rw [happlied] at hcopies hread
  have hsame : (later.read o).withSettings s = later.read o := by
    rw [Registry.read_of_prefix hlater hcopies.has, hread, Options.withSettings_withSettings]
  rw [hload later, applySettings_of_same hsame]

/-- **Options that are written down are loaded as what they say.** -/
theorem load_written (name : String) {fields : Options}
    (h : fields.originDescription ≠ some "") (r : Registry) (now : Int) (logger : Log.Logger)
    (base : OptionsId) :
    (r.load now logger [.object name fields.written] base).1
      = (.ok (r.applySettings base fields.settings).1,
          (r.applySettings base fields.settings).2) := by
  have hloads : ∀ source ∈ [Source.object name fields.written],
      ∃ settings, source.load = .ok settings := fun source hsource => by
    rw [List.mem_singleton.mp hsource]
    exact ⟨_, load_object_written name fields⟩
  exact load_of_check hloads
    (Settings.check_valueOf (s := fields.settings) h (lookup_written name fields)) r now logger base

/-- **Loading is settled, and options can be written down.** Sources that were loaded over a base
give the same instance once more if they are loaded over what came of them, at any time and with any
logger, and no instance is made. Options whose description is not empty can be written down as one
source. Loaded over a base it gives what the options say, and of the base what they do not say, with
its includer and its load context; loaded over the options themselves it gives that very
instance. -/
theorem load_settled (hbase : r.Has base) :
    (∀ (now : Int) (logger : Log.Logger) (sources : List Source) (o : OptionsId) (r' : Registry),
      (r.load now logger sources base).1 = (.ok o, r') →
        ∀ later : Registry, r'.instances <+: later.instances →
          ∀ (now' : Int) (logger' : Log.Logger),
            (later.load now' logger' sources o).1 = (.ok o, later)) ∧
    ∀ p : OptionsId, (r.read p).originDescription ≠ some "" →
      ∀ (name : String) (now : Int) (logger : Log.Logger),
        let source := Source.object name (r.read p).written
        (∃ o r', (r.load now logger [source] base).1 = (.ok o, r') ∧ r'.Has o ∧
          r'.read o =
            { dialect := (r.read p).dialect.or (r.read base).dialect
              originDescription := (r.read p).originDescription.or (r.read base).originDescription
              allowMissing := (r.read p).allowMissing
              includer := (r.read base).includer
              loadContext := (r.read base).loadContext }) ∧
        (r.load now logger [source] p).1 = (.ok p, r) := by
  refine ⟨fun now logger sources o r' h later hlater now' logger' =>
    load_again hbase h hlater now' logger', fun p hp name now logger => ⟨?_, ?_⟩⟩
  · exact ⟨_, _, load_written name hp r now logger base,
      (copies_applySettings hbase (r.read p).settings).has, read_applySettings r base _⟩
  · rw [load_written name hp, applySettings_of_same (Options.withSettings_settings _)]

/-- A dialect and a truth value in letters of either case, which make a new instance the first time
and none the second time, and options with a description that are written down. -/
theorem load_settled_spelled :
    let sources : List Source :=
      [.object "file" [("SYNTAX", .text "JSon"), ("ALLOW_MISSING", .text "FALSE")]]
    let r : Registry := ⟨[.defaults, ⟨some .conf, some "app.conf", true, none, none⟩], 0⟩
    r.Has ⟨0⟩ ∧
      (∃ o r', (r.load 0 .null sources ⟨0⟩).1 = (.ok o, r') ∧ o ≠ ⟨0⟩ ∧
        (r'.load 1 .null sources o).1 = (.ok o, r')) ∧
      (r.load 0 .null [.object "saved" (r.read ⟨1⟩).written] ⟨1⟩).1 = (.ok ⟨1⟩, r) := by
  intro sources r
  have hhas : r.Has ⟨0⟩ := Nat.zero_lt_two
  have hraw : rawSettings sources
      = [⟨"file", "SYNTAX", .text "JSon"⟩, ⟨"file", "ALLOW_MISSING", .text "FALSE"⟩] := by
    rw [rawSettings_singleton, Source.rawSettings_object _ (by decide)]
    rfl
  have hcheck : Settings.check (Merged.empty.replay (rawSettings sources)).lookup
      = .ok ⟨some .json, none, some false⟩ := by
    rw [hraw]
    rfl
  have hload := load_of_check (by simp [sources, Source.load]) hcheck r 0 .null ⟨0⟩
  obtain ⟨hsettled, hwritten⟩ := load_settled hhas
  have hagain := hsettled 0 .null sources _ _ hload _ List.prefix_rfl 1 .null
  refine ⟨hhas, ⟨_, _, hload, fun h => ?_, hagain⟩, (hwritten ⟨1⟩ (by decide) "saved" 0 .null).2⟩
  exact absurd (congrArg OptionsId.index h) (by decide)

end Registry

end ConfigSource
