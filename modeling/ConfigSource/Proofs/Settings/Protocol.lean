import ConfigSource.Proofs.Settings.Outcome

/-!
# The protocol of loading

Loading ends in one of three ways, and each has its own lines in the log
(`ConfigSource.Orderly`): a source fails, and its error is thrown without a word; the settings break
a rule, and an error of this library is thrown, whose report is logged; or the settings are
accepted, and they are logged with their provenance, after a warning of the unknown keys.

There is a fourth way. What stands in place of an origin description is asked for its length, and a
length that has no text makes the check itself fail: an error of another class is thrown and nothing
is logged. That is the one exception (`ConfigSource.keepsProtocol_iff`), and a record that holds a
record as its length is an instance of it (`ConfigSource.not_keepsProtocol_of_nestedLength`).

The logger has no part in any of this but to write the lines or not.
-/

namespace ConfigSource

/-! ### What is asked of loading -/

/-- **A result of loading, and the lines that belong to it.** -/
inductive Orderly (sources : List Source) (now : Int) (logger : Log.Logger) :
    Except Value OptionsId → List Log.Line → Prop
  /-- A source fails. The sources before it are loaded and those behind it are not; its error is
  thrown, and nothing is logged. -/
  | failed {before after : List Source} {s : Source} {e : Value}
      (first : sources = before ++ s :: after)
      (loads : ∀ s' ∈ before, ∃ settings, s'.load = .ok settings) (fails : s.load = .error e)
      (stops : (Merged.ofSources sources).loaded = before.length + 1) :
      Orderly sources now logger (.error e) []
  /-- The merged settings are refused. An error of this library is thrown, and the only line, at
  level `error`, shows the report of that error. -/
  | rejected {m : Merged} {refusal : Refusal} {head : ErrorHead} {context : Table Value}
      {report : Report} {time : String} {lines : List Log.Line}
      (merged : (Merged.ofSources sources).outcome = .ok m)
      (refused : Settings.check m.lookup = .error refusal)
      (name : head.name = "ConfigError") (code : head.code = invalidSettingsCode)
      (reported : (Value.configError head context .undefined).report now false = .ok report)
      (raised : Calendar.isoText? head.raisedAt = some time)
      (members : report.toValue = errorReport head context time)
      (logged : logger.Writes lines [rejectedEntry report.toValue]) :
      Orderly sources now logger (.error (.configError head context .undefined)) lines
  /-- The merged settings are accepted. Options are given, and the lines are a warning, if unknown
  keys were merged, and one with the settings and their provenance. -/
  | accepted {m : Merged} {settings : Settings} {o : OptionsId} {lines : List Log.Line}
      (merged : (Merged.ofSources sources).outcome = .ok m)
      (checked : Settings.check m.lookup = .ok settings)
      (logged : logger.Writes lines
        ((if unknownKeys m = [] then [] else [unknownEntry (unknownKeys m)])
          ++ [appliedEntry m settings])) :
      Orderly sources now logger (.ok o) lines

/-- **Loading keeps to the protocol**, over every base, with every logger and at every instant that
has a text. -/
def KeepsProtocol (sources : List Source) : Prop :=
  ∀ (r : Registry) (now : Int) (logger : Log.Logger) (base : OptionsId),
    Calendar.isValid now = true →
      Orderly sources now logger (r.load now logger sources base).1.1
        (r.load now logger sources base).2

/-- **The origin description is asked for a length that has no text.** -/
def LengthWithoutText (sources : List Source) : Prop :=
  ∃ m, (Merged.ofSources sources).outcome = .ok m ∧
    (m.lookup SettingKey.origin.name).HasUnreadableLength

/-! ### Sources that fail -/

/-- **The first source that fails is the last one that is loaded.** -/
theorem Merged.outcome_addSources_error {sources : List Source} {m : Merged} {loaded : Nat}
    {e : Value} (h : (m.addSources loaded sources).outcome = .error e) :
    ∃ before s after, sources = before ++ s :: after ∧
      (∀ s' ∈ before, ∃ settings, s'.load = .ok settings) ∧ s.load = .error e ∧
        (m.addSources loaded sources).loaded = loaded + before.length + 1 := by
  induction sources generalizing m loaded with
  | nil => cases h
  | cons s rest ih =>
    cases hs : s.load with
    | error e' =>
      simp only [addSources, hs] at h ⊢
      obtain rfl := Except.error.inj h
      exact ⟨[], s, rest, rfl, fun _ hs' => absurd hs' List.not_mem_nil, hs, rfl⟩
    | ok settings =>
      simp only [addSources, hs] at h ⊢
      obtain ⟨before, s', after, hsources, hloads, hfails, hloaded⟩ := ih h
      refine ⟨s :: before, s', after, by rw [hsources, List.cons_append],
        List.forall_mem_cons.mpr ⟨⟨settings, hs⟩, hloads⟩, hfails, ?_⟩
      rw [hloaded, List.length_cons]
      omega

/-! ### The three ways -/

section Ways

variable {sources : List Source} {m : Merged} {now : Int} {logger : Log.Logger}
  {lines : List Log.Line}

theorem orderly_of_failure {e : Value} (h : (Merged.ofSources sources).outcome = .error e) :
    Orderly sources now logger (.error e) [] := by
  obtain ⟨before, s, after, hsources, hloads, hfails, hloaded⟩ :=
    Merged.outcome_addSources_error h
  refine .failed hsources hloads hfails (hloaded.trans ?_)
  rw [Nat.zero_add]

theorem orderly_of_issues (hm : (Merged.ofSources sources).outcome = .ok m) {broken : List Issue}
    (hcheck : Settings.check m.lookup = .error (.issues broken))
    (hvalid : Calendar.isValid now = true) :
    Orderly sources now logger (.error (onRefusal now logger m (.issues broken)).1)
      (onRefusal now logger m (.issues broken)).2 := by
  obtain ⟨time, htime⟩ : ∃ time, Calendar.isoText? now = some time :=
    ⟨_, by rw [Calendar.isoText?, if_pos hvalid]⟩
  have hwrites := writes_onRefusal htime logger m broken
  rw [onRefusal_issues htime, rejection_eq]
  exact .rejected hm hcheck rfl rfl (report_configError htime _ now false) htime
    (by simp [Report.toValue, errorReport, Report.Level.stackMember, Report.Level.ofConfigError])
    hwrites

end Ways

/-! ### The exception -/

/-- What comes of settings whose origin description cannot be checked: the failure of the check is
thrown, and nothing is logged. -/
theorem readSettings_of_lengthWithoutText {sources : List Source} (h : LengthWithoutText sources)
    (now : Int) (logger : Log.Logger) :
    readSettings now logger sources = (.error .withoutText, []) := by
  obtain ⟨m, hm, hlength⟩ := h
  have hcheck : Settings.check m.lookup = .error (.failed .withoutText) :=
    Settings.check_eq_failed_iff.mpr (checkOrigin_eq_failed_iff.mpr ⟨hlength, rfl⟩)
  rw [readSettings_of_outcome hm, hcheck]
  rfl

/-- **A length that has no text breaks the protocol.** -/
theorem not_keepsProtocol {sources : List Source} (h : LengthWithoutText sources) :
    ¬KeepsProtocol sources := by
  intro hkeeps
  have horderly := hkeeps .empty 0 .null ⟨0⟩ (by decide)
  have hread := readSettings_of_lengthWithoutText h 0 .null
  obtain ⟨m, hm, -⟩ := h
  have hload : Registry.empty.load 0 .null sources ⟨0⟩ = ((.error .withoutText, .empty), []) := by
    simp only [Registry.load, hread]
  rw [hload] at horderly
  -- the error is none of this library, options are not given, and every source loads
  cases horderly with
  | failed first _ fails _ =>
    obtain ⟨settings, hs⟩ := (Merged.outcome_ofSources_iff.mp hm).1 _
      (first ▸ List.mem_append_right _ List.mem_cons_self)
    rw [hs] at fails
    cases fails

/-! ### The exact condition -/

/-- **Loading keeps to the protocol exactly if no length without a text is asked for.** Where one
is, the failure of the check is thrown and nothing is logged. In no case does the logger have a part
in what is given or thrown, or in the instances that are made. -/
theorem keepsProtocol_iff (sources : List Source) :
    (KeepsProtocol sources ↔ ¬LengthWithoutText sources) ∧
    (LengthWithoutText sources →
      ∀ (r : Registry) (now : Int) (logger : Log.Logger) (base : OptionsId),
        r.load now logger sources base = ((.error .withoutText, r), [])) ∧
    ∀ (r : Registry) (now : Int) (logger logger' : Log.Logger) (base : OptionsId),
      (r.load now logger sources base).1 = (r.load now logger' sources base).1 := by
  refine ⟨⟨fun hkeeps h => not_keepsProtocol h hkeeps, fun hreadable => ?_⟩, ?_, ?_⟩
  · intro r now logger base hvalid
    cases hm : (Merged.ofSources sources).outcome with
    | error e =>
      have hread := readSettings_of_failure hm now logger
      simp only [Registry.load, hread]
      exact orderly_of_failure hm
    | ok m =>
      have hread := readSettings_of_outcome hm now logger
      cases hcheck : Settings.check m.lookup with
      | ok settings =>
        simp only [hcheck] at hread
        simp only [Registry.load, hread]
        exact .accepted hm hcheck (writes_logAccepted logger now m settings)
      | error refusal =>
        simp only [hcheck] at hread
        simp only [Registry.load, hread]
        cases refusal with
        | failed e =>
          have hlength := (checkOrigin_eq_failed_iff.mp (Settings.check_eq_failed_iff.mp hcheck)).1
          exact absurd ⟨m, hm, hlength⟩ hreadable
        | issues broken => exact orderly_of_issues hm hcheck hvalid
  · intro h r now logger base
    simp only [Registry.load, readSettings_of_lengthWithoutText h]
  · intro r now logger logger' base
    exact Registry.load_congr (readSettings_logger now logger logger' sources) r base

/-- **A length that is a record**, with a member where its text is made, breaks the protocol. -/
theorem not_keepsProtocol_of_nestedLength :
    ¬KeepsProtocol [.object "object"
      [("ORIGIN", .record [("length", .record [("toString", .number (.ofInt 1))])])]] := by
  refine not_keepsProtocol ⟨_, Merged.outcome_ofSources_iff.mpr ⟨by simp [Source.load], rfl⟩, ?_⟩
  rw [rawSettings_cons, Source.rawSettings_object _ (by simp; decide)]
  exact ⟨_, _, rfl, rfl, rfl⟩

end ConfigSource
