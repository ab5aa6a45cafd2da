import ConfigSource.Error.Report
import ConfigSource.Log.Logger
import ConfigSource.Options
import ConfigSource.Settings.Merge
import ConfigSource.Settings.Schema

/-!
# Loading settings

To **load** settings is to merge the tables of their sources, to check the merged table once, and to
apply what was given to a base. What happens is logged: a rejection with its error, unknown keys as
a warning, and at last the settings with their provenance.

* `ConfigSource.rejection`: the error for settings that break a rule;
* `ConfigSource.readSettings`: the checked settings and the lines that are written;
* `ConfigSource.Registry.applySettings`: base options with the settings applied;
* `ConfigSource.Registry.load`: all of it.
-/

namespace ConfigSource

/-- The code of a rejection. -/
def invalidSettingsCode : String := "invalid_settings"

/-- The settings that issues are about, each once, in the order of its first issue. -/
def offendingKeys (issues : List Issue) : List String :=
  ((issues.filterMap Issue.key?).map SettingKey.name).eraseDups

/-- The error for settings that break a rule: the offending keys, and where each value came from. -/
def rejection (now : Int) (merged : Merged) (issues : List Issue) : Value :=
  .configErrorAt now invalidSettingsCode
    ("Parse settings validation failed:\n" ++ Issue.prettyAll issues)
    [("keys", .list ((offendingKeys issues).map .text)),
      ("sources", .list ((offendingKeys issues).map fun key => .text (merged.sourceOf key)))]

/-- The keys that were given and stand for no setting. -/
def unknownKeys (merged : Merged) : List String :=
  merged.keys.filter fun key => !SettingKey.isKnown key

/-- What a logger bound for loading writes of a rejection; refused if the instant has no text. -/
def logRejection (now : Int) (log : Log.Logger) (error : Value) :
    Except Value (List Log.Line) := do
  let report ← error.report now false
  .ok (log.note now .error "parse settings rejected" [("error", report.toValue)])

/-- What is written of settings that are accepted. -/
def logAccepted (now : Int) (log : Log.Logger) (merged : Merged) (settings : Settings) :
    List Log.Line :=
  (if unknownKeys merged = [] then []
    else log.note now .warn "ignoring unknown parse settings"
      [("keys", .list ((unknownKeys merged).map .text))])
  ++ log.note now .debug "parse settings applied"
      [("settings", .record settings.toRecord),
        ("provenance", .record (merged.provenance.map fun m => (m.1, .text m.2)))]

/-- The logger that loading writes to. -/
def loadLogger (logger : Log.Logger) : Log.Logger :=
  logger.bind [.member "module" (.text "parse-options")]

/-- What becomes of settings that were refused: the error that is thrown, and what is written. -/
def onRefusal (now : Int) (logger : Log.Logger) (merged : Merged) :
    Refusal → Value × List Log.Line
  | .failed e => (e, [])
  | .issues broken =>
    match logRejection now (loadLogger logger) (rejection now merged broken) with
    | .ok lines => (rejection now merged broken, lines)
    | .error e => (e, [])

/-- The settings that sources give, or the error that they are refused with, and what is written. -/
def readSettings (now : Int) (logger : Log.Logger) (sources : List Source) :
    Except Value Settings × List Log.Line :=
  match (Merged.ofSources sources).outcome with
  | .error e => (.error e, [])
  | .ok merged =>
    match Settings.check merged.lookup with
    | .ok settings => (.ok settings, logAccepted now (loadLogger logger) merged settings)
    | .error refusal =>
      (.error (onRefusal now logger merged refusal).1, (onRefusal now logger merged refusal).2)

namespace Registry

/-- The update by a setting that may be missing. -/
def updateWith {α : Type} (r : Registry) (o : OptionsId) (setting : Option α)
    (update : Registry → OptionsId → α → OptionsId × Registry) : OptionsId × Registry :=
  match setting with
  | some a => update r o a
  | none => (o, r)

/-- Base options with the settings applied that were given. -/
def applySettings (r : Registry) (o : OptionsId) (settings : Settings) : OptionsId × Registry :=
  let first := r.updateWith o settings.dialect fun r o d => r.withDialect o (some d)
  let second := first.2.updateWith first.1 settings.origin fun r o d =>
    r.withOriginDescription o (some d)
  second.2.updateWith second.1 settings.allowMissing withAllowMissing

/-- Loads settings over a base. -/
def load (r : Registry) (now : Int) (logger : Log.Logger) (sources : List Source)
    (base : OptionsId) : (Except Value OptionsId × Registry) × List Log.Line :=
  match readSettings now logger sources with
  | (.ok settings, lines) =>
    let applied := r.applySettings base settings
    ((.ok applied.1, applied.2), lines)
  | (.error e, lines) => ((.error e, r), lines)

end Registry

end ConfigSource
