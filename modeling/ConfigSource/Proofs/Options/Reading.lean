import ConfigSource.Settings.Load
import Mathlib.Tactic.Common

/-!
# What an update leaves in the fields

An update is read off the fields of the instance that it gives: the field it is about has the new
value, and the others are those of the receiver. Whether a new instance was made for it or not makes
no difference to that. Applying settings is three such updates, each of which may be left out
(`ConfigSource.Registry.read_applySettings`).
-/

namespace ConfigSource

/-- The fields with the settings that are given in place of those that are there. -/
def Options.withSettings (fields : Options) (s : Settings) : Options where
  dialect := s.dialect.or fields.dialect
  originDescription := s.origin.or fields.originDescription
  allowMissing := s.allowMissing.getD fields.allowMissing
  includer := fields.includer
  loadContext := fields.loadContext

namespace Registry

@[simp] theorem read_make (r : Registry) (fields : Options) :
    (r.make fields).2.read (r.make fields).1 = fields := by
  simp [make, read]

theorem read_withDialect (r : Registry) (o : OptionsId) (d : Option Dialect) :
    (r.withDialect o d).2.read (r.withDialect o d).1 = { r.read o with dialect := d } := by
  unfold withDialect
  split
  · next h => rw [← h]
  · exact read_make _ _

theorem read_withOriginDescription (r : Registry) (o : OptionsId) (d : Option String) :
    (r.withOriginDescription o d).2.read (r.withOriginDescription o d).1
      = { r.read o with originDescription := d } := by
  unfold withOriginDescription
  split
  · next h => rw [← h]
  · exact read_make _ _

theorem read_withAllowMissing (r : Registry) (o : OptionsId) (b : Bool) :
    (r.withAllowMissing o b).2.read (r.withAllowMissing o b).1
      = { r.read o with allowMissing := b } := by
  unfold withAllowMissing
  split
  · next h => rw [← h]
  · exact read_make _ _

theorem read_withFallbackOriginDescription (r : Registry) (o : OptionsId) (d : Option String) :
    (r.withFallbackOriginDescription o d).2.read (r.withFallbackOriginDescription o d).1
      = { r.read o with originDescription := (r.read o).originDescription.or d } := by
  unfold withFallbackOriginDescription
  split
  · next h => rw [read_withOriginDescription, h, Option.none_or]
  · next h =>
    obtain ⟨description, hdescription⟩ := Option.ne_none_iff_exists'.mp h
    rw [hdescription, Option.some_or, ← hdescription]

/-- An includer is set as far as its identity goes: where it was the same before, the old one is
kept. -/
theorem identity_withIncluder (r : Registry) (o : OptionsId) (includer : Option Includer) :
    ((r.withIncluder o includer).2.read (r.withIncluder o includer).1).includer.map Chain.identity
      = includer.map Chain.identity := by
  unfold withIncluder
  split
  · assumption
  · rw [read_make]

/-- So is a load context. -/
theorem identity_withLoadContext (r : Registry) (o : OptionsId) (context : Option LoadContext) :
    ((r.withLoadContext o context).2.read (r.withLoadContext o context).1).loadContext.map
        LoadContext.identity
      = context.map LoadContext.identity := by
  unfold withLoadContext
  split
  · assumption
  · rw [read_make]

theorem read_clearForInclude (r : Registry) (o : OptionsId) :
    (r.clearForInclude o).2.read (r.clearForInclude o).1
      = { r.read o with dialect := none, originDescription := none, allowMissing := true } := by
  simp [clearForInclude, read_withDialect, read_withOriginDescription, read_withAllowMissing]

/-- **Applied settings replace the fields that they give**, and no others. -/
theorem read_applySettings (r : Registry) (o : OptionsId) (s : Settings) :
    (r.applySettings o s).2.read (r.applySettings o s).1 = (r.read o).withSettings s := by
  obtain ⟨dialect, origin, allowMissing⟩ := s
  cases dialect <;> cases origin <;> cases allowMissing <;>
    simp [applySettings, updateWith, Options.withSettings, read_withDialect,
      read_withOriginDescription, read_withAllowMissing]

/-- What comes of loading settings: the fields of the options, or what is thrown. -/
def loaded (r : Registry) (now : Int) (logger : Log.Logger) (sources : List Source)
    (base : OptionsId) : Except Value Options :=
  (r.load now logger sources base).1.1.map (r.load now logger sources base).1.2.read

/-- **Loading gives the fields of the base with the settings that were read**, or throws what
reading them threw. -/
theorem loaded_eq (r : Registry) (now : Int) (logger : Log.Logger) (sources : List Source)
    (base : OptionsId) :
    r.loaded now logger sources base
      = (readSettings now logger sources).1.map (r.read base).withSettings := by
  rcases h : readSettings now logger sources with ⟨outcome, lines⟩
  cases outcome with
  | error e => simp [loaded, load, h, Except.map]
  | ok s => simp [loaded, load, h, Except.map, read_applySettings]

/-- What loading writes is what reading the settings wrote. -/
theorem load_lines (r : Registry) (now : Int) (logger : Log.Logger) (sources : List Source)
    (base : OptionsId) :
    (r.load now logger sources base).2 = (readSettings now logger sources).2 := by
  rcases h : readSettings now logger sources with ⟨outcome, lines⟩
  cases outcome with
  | error e => simp [load, h]
  | ok s => simp [load, h]

end Registry

end ConfigSource
