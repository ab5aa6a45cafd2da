import ConfigSource.Proofs.Log.Lines
import ConfigSource.Proofs.Options.Reading
import ConfigSource.Proofs.Settings.Check
import ConfigSource.Proofs.Settings.Replay

/-!
# What comes of reading settings

Once the sources are merged, the check of the merged table decides what comes of it
(`ConfigSource.readSettings_of_outcome`).

* Accepted settings are given back, and there is a line on the unknown keys, if there are any, and
  one on the settings (`ConfigSource.writes_logAccepted`).
* If a rule is broken an error is thrown, and the line that is written shows the report of that
  very error (`ConfigSource.onRefusal_eq`, `ConfigSource.writes_onRefusal`). The error depends on
  the issues and on the sources of known keys only (`ConfigSource.onRefusal_congr`).

The logger decides which of these lines are written, and nothing else
(`ConfigSource.readSettings_logger`).
-/

namespace ConfigSource

/-! ### What is issued -/

/-- An entry that loading issues. -/
def loadEntry (level : Log.Level) (message : String) (members : Table Value) : Log.Issued :=
  ⟨level, [("module", .text "parse-options")] ++ members ++ [("msg", .text message)]⟩

/-- The provenance of merged settings, as a record. -/
def Merged.provenanceRecord (m : Merged) : Table Value :=
  m.provenance.map fun entry => (entry.1, .text entry.2)

/-- The entry on settings that are refused with this report. -/
def rejectedEntry (report : Value) : Log.Issued :=
  loadEntry .error "parse settings rejected" [("error", report)]

/-- The entry on unknown keys. -/
def unknownEntry (keys : List String) : Log.Issued :=
  loadEntry .warn "ignoring unknown parse settings" [("keys", .list (keys.map .text))]

/-- The entry on accepted settings. -/
def appliedEntry (m : Merged) (s : Settings) : Log.Issued :=
  loadEntry .debug "parse settings applied"
    [("settings", .record s.toRecord), ("provenance", .record m.provenanceRecord)]

/-- What is issued on accepted settings. -/
def acceptedEntries (m : Merged) (s : Settings) : List Log.Issued :=
  (if unknownKeys m = [] then [] else [unknownEntry (unknownKeys m)]) ++ [appliedEntry m s]

/-- The record that reports an error of this library that has no cause and was raised at an instant
with this text. -/
def errorReport (head : ErrorHead) (context : Table Value) (time : String) : Value :=
  .record (Report.Level.ofConfigError head context time false).members

theorem acceptedEntries_at_warn (m : Merged) (s : Settings) :
    (acceptedEntries m s).filter (fun entry => decide (entry.level = .warn))
      = if unknownKeys m = [] then [] else [unknownEntry (unknownKeys m)] := by
  unfold acceptedEntries
  split <;> rfl

theorem acceptedEntries_at_debug (m : Merged) (s : Settings) :
    (acceptedEntries m s).filter (fun entry => decide (entry.level = .debug))
      = [appliedEntry m s] := by
  unfold acceptedEntries
  split <;> rfl

section Writing

variable (logger : Log.Logger) (now : Int)

theorem writes_loadNote (level : Log.Level) (message : String) {members : Table Value}
    (hkeys : (["module"] ++ members.keys ++ ["msg"]).Nodup)
    (hplain : ∀ m ∈ members, m.2.IsPlain now) :
    logger.Writes ((loadLogger logger).note now level message members)
      [loadEntry level message members] :=
  Log.Logger.writes_note logger [("module", .text "parse-options")] now level message
    (by simpa [Table.keys] using hkeys) hplain

theorem isPlain_toRecord (s : Settings) : Value.IsPlain now (.record s.toRecord) := by
  refine Value.isPlain_record fun m hm => ?_
  simp only [Settings.toRecord, List.mem_append, Option.mem_toList, Option.map_eq_some_iff] at hm
  rcases hm with (⟨d, -, rfl⟩ | ⟨o, -, rfl⟩) | ⟨a, -, rfl⟩
  · exact Value.isPlain_text _
  · exact Value.isPlain_text _
  · exact Value.isPlain_bool _

theorem isPlain_provenanceRecord (m : Merged) :
    Value.IsPlain now (.record m.provenanceRecord) := by
  refine Value.isPlain_record fun entry hentry => ?_
  obtain ⟨written, -, rfl⟩ := List.mem_map.mp hentry
  exact Value.isPlain_text _

/-- **What is written of accepted settings.** -/
theorem writes_logAccepted (m : Merged) (s : Settings) :
    logger.Writes (logAccepted now (loadLogger logger) m s) (acceptedEntries m s) := by
  have hunknown : logger.Writes
      ((loadLogger logger).note now .warn "ignoring unknown parse settings"
        [("keys", .list ((unknownKeys m).map .text))])
      [unknownEntry (unknownKeys m)] := by
    refine writes_loadNote logger now .warn _ (by simp) fun entry hentry => ?_
    rw [List.mem_singleton.mp hentry]
    exact Value.isPlain_texts _
  have happlied : logger.Writes
      ((loadLogger logger).note now .debug "parse settings applied"
        [("settings", .record s.toRecord), ("provenance", .record m.provenanceRecord)])
      [appliedEntry m s] := by
    refine writes_loadNote logger now .debug _ (by simp) fun entry hentry => ?_
    rw [List.mem_cons, List.mem_singleton] at hentry
    rcases hentry with rfl | rfl
    · exact isPlain_toRecord now s
    · exact isPlain_provenanceRecord now m
  unfold logAccepted acceptedEntries
  refine Log.Logger.Writes.append ?_ happlied
  split
  · exact .nil
  · exact hunknown

end Writing

/-! ### Refusals -/

/-- What a rejection says of itself. -/
def rejectionHead (now : Int) (broken : List Issue) : ErrorHead where
  name := "ConfigError"
  code := invalidSettingsCode
  message := "Parse settings validation failed:\n" ++ Issue.prettyAll broken
  operational := true
  raisedAt := now

/-- What a rejection says of the offending keys. -/
def rejectionContext (m : Merged) (broken : List Issue) : Table Value :=
  [("keys", .list ((offendingKeys broken).map .text)),
    ("sources", .list ((offendingKeys broken).map fun key => .text (m.sourceOf key)))]

theorem rejection_eq (now : Int) (m : Merged) (broken : List Issue) :
    rejection now m broken
      = .configError (rejectionHead now broken) (rejectionContext m broken) .undefined := rfl

/-- The report of an error of this library that has no cause. -/
theorem report_configError {head : ErrorHead} {time : String}
    (htime : Calendar.isoText? head.raisedAt = some time) (context : Table Value) (now : Int)
    (withStack : Bool) :
    (Value.configError head context .undefined).report now withStack
      = .ok (.last (.ofConfigError head context time withStack)) := by
  simp [Value.report, Value.reportTime, htime, Value.reportOver, Value.isUndefined, bind,
    Except.bind]

section Issues

variable {now : Int} {time : String} (htime : Calendar.isoText? now = some time)
  (logger : Log.Logger) (m : Merged) (broken : List Issue)

include htime

/-- **A broken rule is thrown as an error, and logged with the report of that error**, at an instant
that has a text. -/
theorem onRefusal_eq :
    onRefusal now logger m (.issues broken) = (rejection now m broken,
      (loadLogger logger).note now .error "parse settings rejected"
        [("error", errorReport (rejectionHead now broken) (rejectionContext m broken) time)]) := by
  have hreport : (rejection now m broken).report now false = .ok (.last
      (.ofConfigError (rejectionHead now broken) (rejectionContext m broken) time false)) := by
    rw [rejection_eq, report_configError htime]
  have hlog : logRejection now (loadLogger logger) (rejection now m broken)
      = .ok ((loadLogger logger).note now .error "parse settings rejected"
        [("error", errorReport (rejectionHead now broken) (rejectionContext m broken) time)]) := by
    rw [logRejection, hreport]
    rfl
  rw [onRefusal, hlog]

theorem onRefusal_issues :
    (onRefusal now logger m (.issues broken)).1 = rejection now m broken := by
  rw [onRefusal_eq htime]

/-- **What is written of a broken rule.** -/
theorem writes_onRefusal :
    logger.Writes (onRefusal now logger m (.issues broken)).2
      [rejectedEntry
        (errorReport (rejectionHead now broken) (rejectionContext m broken) time)] := by
  have hcontext : Value.IsPlain now (.record (rejectionContext m broken)) := by
    refine Value.isPlain_record fun entry hentry => ?_
    rw [rejectionContext, List.mem_cons, List.mem_singleton] at hentry
    rcases hentry with rfl | rfl
    · exact Value.isPlain_texts _
    · refine Value.isPlain_list fun v hv => ?_
      obtain ⟨key, -, rfl⟩ := List.mem_map.mp hv
      exact Value.isPlain_text _
  have hreport : Value.IsPlain now
      (errorReport (rejectionHead now broken) (rejectionContext m broken) time) := by
    refine Value.isPlain_record fun entry hentry => ?_
    simp only [Report.Level.members, List.mem_cons, List.not_mem_nil, or_false] at hentry
    rcases hentry with rfl | rfl | rfl | rfl | rfl | rfl
    · exact Value.isPlain_text _
    · exact Value.isPlain_text _
    · exact Value.isPlain_text _
    · exact hcontext
    · exact Value.isPlain_bool _
    · exact Value.isPlain_text _
  rw [onRefusal_eq htime]
  refine writes_loadNote logger now .error _ (by simp) fun entry hentry => ?_
  rw [List.mem_singleton.mp hentry]
  exact hreport

end Issues

/-- At an instant without a text, that there is none is thrown in place of the rejection. -/
theorem onRefusal_of_isoText?_eq_none {now : Int} (htime : Calendar.isoText? now = none)
    (logger : Log.Logger) (m : Merged) (broken : List Issue) :
    (onRefusal now logger m (.issues broken)).1 = .invalidTime := by
  have hreport : (rejection now m broken).report now false = .error .invalidTime := by
    simp [rejection_eq, rejectionHead, Value.report, Value.reportTime, htime, bind, Except.bind]
  have hlog : logRejection now (loadLogger logger) (rejection now m broken)
      = .error .invalidTime := by
    rw [logRejection, hreport]
    rfl
  rw [onRefusal, hlog]

/-- A rejection depends on the sources of known keys only. -/
theorem rejection_congr {m m' : Merged}
    (h : ∀ k : SettingKey, m.sourceOf k.name = m'.sourceOf k.name)
    (now : Int) (broken : List Issue) : rejection now m broken = rejection now m' broken := by
  have hsources : ((offendingKeys broken).map fun key => Value.text (m.sourceOf key))
      = (offendingKeys broken).map fun key => Value.text (m'.sourceOf key) := by
    refine List.map_congr_left fun key hkey => ?_
    obtain ⟨k, rfl⟩ := SettingKey.isKnown_iff.mp (isKnown_of_mem_offendingKeys hkey)
    rw [h k]
  rw [rejection, rejection, hsources]

theorem onRefusal_congr {m m' : Merged}
    (h : ∀ k : SettingKey, m.sourceOf k.name = m'.sourceOf k.name)
    (now : Int) (logger : Log.Logger) (refusal : Refusal) :
    onRefusal now logger m refusal = onRefusal now logger m' refusal := by
  cases refusal with
  | failed e => rfl
  | issues broken => simp only [onRefusal, rejection_congr h]

/-- **The logger has no part in what is thrown.** -/
theorem onRefusal_logger (now : Int) (logger logger' : Log.Logger) (m : Merged)
    (refusal : Refusal) :
    (onRefusal now logger m refusal).1 = (onRefusal now logger' m refusal).1 := by
  cases refusal with
  | failed e => rfl
  | issues broken =>
    simp only [onRefusal, logRejection]
    cases (rejection now m broken).report now false with
    | error e => rfl
    | ok report => rfl

/-! ### The outcome -/

section Outcome

variable {sources : List Source} {m : Merged}

/-- What reading settings gives, once the sources are merged. -/
theorem readSettings_of_outcome (h : (Merged.ofSources sources).outcome = .ok m) (now : Int)
    (logger : Log.Logger) :
    readSettings now logger sources
      = match Settings.check m.lookup with
        | .ok s => (.ok s, logAccepted now (loadLogger logger) m s)
        | .error refusal =>
          (.error (onRefusal now logger m refusal).1, (onRefusal now logger m refusal).2) := by
  cases hcheck : Settings.check m.lookup <;> simp only [readSettings, h, hcheck]

/-- What reading settings gives if a source fails. -/
theorem readSettings_of_failure {e : Value} (h : (Merged.ofSources sources).outcome = .error e)
    (now : Int) (logger : Log.Logger) : readSettings now logger sources = (.error e, []) := by
  simp only [readSettings, h]

/-- **Merged tables that are alike under the known keys have the same outcome.** -/
theorem readSettings_congr {sources' : List Source} {m' : Merged}
    (h : (Merged.ofSources sources).outcome = .ok m)
    (h' : (Merged.ofSources sources').outcome = .ok m')
    (hlookup : ∀ k : SettingKey, m.lookup k.name = m'.lookup k.name)
    (hsource : ∀ k : SettingKey, m.sourceOf k.name = m'.sourceOf k.name)
    (now : Int) (logger : Log.Logger) :
    (readSettings now logger sources).1 = (readSettings now logger sources').1 := by
  rw [readSettings_of_outcome h, readSettings_of_outcome h', Settings.check_congr hlookup]
  cases Settings.check m'.lookup with
  | ok s => rfl
  | error refusal =>
    exact congrArg (fun p => Except.error p.1) (onRefusal_congr hsource now logger refusal)

/-- **The logger has no part in the outcome.** -/
theorem readSettings_logger (now : Int) (logger logger' : Log.Logger) (sources : List Source) :
    (readSettings now logger sources).1 = (readSettings now logger' sources).1 := by
  cases h : (Merged.ofSources sources).outcome with
  | error e => rw [readSettings_of_failure h, readSettings_of_failure h]
  | ok m =>
    rw [readSettings_of_outcome h, readSettings_of_outcome h]
    cases Settings.check m.lookup with
    | ok s => rfl
    | error refusal => exact congrArg Except.error (onRefusal_logger now logger logger' m refusal)

/-- **An error of this library is thrown for broken rules only**, and it is their rejection. -/
theorem exists_rejection_of_readSettings (h : (Merged.ofSources sources).outcome = .ok m)
    {now : Int} {logger : Log.Logger} {head : ErrorHead} {context : Table Value} {cause : Value}
    (hthrown : (readSettings now logger sources).1 = .error (.configError head context cause)) :
    ∃ broken, Settings.check m.lookup = .error (.issues broken) ∧
      .configError head context cause = rejection now m broken := by
  rw [readSettings_of_outcome h] at hthrown
  cases hcheck : Settings.check m.lookup with
  | ok s => simp [hcheck] at hthrown
  | error refusal =>
    have hrefusal : (onRefusal now logger m refusal).1 = .configError head context cause := by
      simpa [hcheck] using hthrown
    cases refusal with
    | failed e =>
      -- the check fails with an error of another class
      rw [eq_withoutText_of_checkOrigin (Settings.check_eq_failed_iff.mp hcheck)] at hrefusal
      cases hrefusal
    | issues broken =>
      refine ⟨broken, rfl, ?_⟩
      cases htime : Calendar.isoText? now with
      | none =>
        rw [onRefusal_of_isoText?_eq_none htime] at hrefusal
        cases hrefusal
      | some time => rw [← hrefusal, onRefusal_issues htime]

/-- What is thrown by loading is thrown by reading the settings. -/
theorem Registry.readSettings_of_load_error {r : Registry} {now : Int} {logger : Log.Logger}
    {base : OptionsId} {e : Value} (h : (r.load now logger sources base).1.1 = .error e) :
    (readSettings now logger sources).1 = .error e := by
  rcases hread : readSettings now logger sources with ⟨outcome, lines⟩
  cases outcome with
  | error e' => simpa [load, hread] using h
  | ok s => simp [load, hread] at h

/-- Outcomes that are the same are applied alike. -/
theorem Registry.load_congr {now : Int} {logger logger' : Log.Logger}
    {sources sources' : List Source}
    (h : (readSettings now logger sources).1 = (readSettings now logger' sources').1)
    (r : Registry) (base : OptionsId) :
    (r.load now logger sources base).1 = (r.load now logger' sources' base).1 := by
  rcases hread : readSettings now logger sources with ⟨outcome, lines⟩
  rcases hread' : readSettings now logger' sources' with ⟨outcome', lines'⟩
  obtain rfl : outcome = outcome' := by simpa [hread, hread'] using h
  cases outcome with
  | error e => simp [load, hread, hread']
  | ok s => simp [load, hread, hread']

end Outcome

end ConfigSource
