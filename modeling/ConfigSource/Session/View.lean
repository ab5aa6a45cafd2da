import ConfigSource.Include
import ConfigSource.Log.Logger

/-!
# What a session shows

Things are shown by the fields that a reader can tell them by. An includer and a load context are
shown with a **reference**: the first name that was given to this very instance, if any was.

* `ConfigSource.Session.IncluderView`, `ConfigSource.Session.ContextView`,
  `ConfigSource.Session.OptionsView`: things as they are shown;
* `ConfigSource.Session.Answer`: the answer of a step.
-/

namespace ConfigSource

namespace Session

/-- An includer as it is shown. -/
inductive IncluderView where
  /-- A single includer. -/
  | leaf (name : String) (reference : Option String)
  /-- A chain with its parts. -/
  | fallback (name : String) (reference : Option String) (primary secondary : IncluderView)

namespace IncluderView

/-- The view as a record. -/
def toValue : IncluderView → Value
  | .leaf name reference => .record [("name", .text name), ("ref", Value.ofText? reference)]
  | .fallback name reference primary secondary =>
    .record [("name", .text name), ("ref", Value.ofText? reference), ("primary", primary.toValue),
      ("fallback", secondary.toValue)]

/-- The view of an includer, given how instances are called. -/
def ofIncluder (reference : Identity → Option String) : Includer → IncluderView
  | .leaf identity a => .leaf a.name (reference identity)
  | .fallback identity primary secondary =>
    .fallback (Includer.title (.fallback identity primary secondary)) (reference identity)
      (ofIncluder reference primary) (ofIncluder reference secondary)

/-- The view of an includer that may be missing, as a value. -/
def valueOf? : Option IncluderView → Value
  | some view => view.toValue
  | none => .null

end IncluderView

/-- A load context as it is shown. -/
structure ContextView where
  /-- Its name. -/
  name : String
  /-- What this instance is called. -/
  reference : Option String

/-- The view as a record. -/
def ContextView.toValue (v : ContextView) : Value :=
  .record [("name", .text v.name), ("ref", Value.ofText? v.reference)]

/-- Options as they are shown. -/
structure OptionsView where
  /-- The dialect. -/
  dialect : Option Dialect
  /-- The origin description. -/
  originDescription : Option String
  /-- Whether a missing source is tolerated. -/
  allowMissing : Bool
  /-- The includer. -/
  includer : Option IncluderView
  /-- Whether a load context is set. -/
  hasLoadContext : Bool
  /-- The load context that is set, or else the ambient one. -/
  loadContext : ContextView

/-- The members of the view as a record. -/
def OptionsView.members (v : OptionsView) : Table Value :=
  [("syntax", Value.ofText? (v.dialect.map Dialect.name)),
    ("originDescription", Value.ofText? v.originDescription),
    ("allowMissing", .bool v.allowMissing), ("includer", IncluderView.valueOf? v.includer),
    ("hasLoadContext", .bool v.hasLoadContext), ("loadContext", v.loadContext.toValue)]

/-- The answer of a step. -/
inductive Answer where
  /-- Options, and whether they are the very instance that the step began with. -/
  | options (view : OptionsView) (same : Option Bool)
  /-- Loaded options, as above, and the lines that were written, if they are asked for. -/
  | loaded (view : OptionsView) (same : Option Bool) (lines : Option (List Log.Line))
  /-- What the sources of a load threw or were refused with, and the lines that were written, if
  they are asked for. -/
  | loadRefused (e : Thrown) (lines : Option (List Log.Line))
  /-- The options for what a source includes: whether they are those of the source itself, and
  whether asking twice gives one instance. -/
  | included (view : OptionsView) (same stable : Bool)
  /-- An includer, or none. -/
  | includer (view : Option IncluderView)
  /-- A load context. -/
  | loadContext (view : ContextView)
  /-- A name, seen from the including source. -/
  | relative (name : Option String)
  /-- The location of a resource. -/
  | location (place : Option String)
  /-- What an includer answered, and the rule lists that were consulted. -/
  | reply (result : Except Thrown (Option Reply)) (calls : List Call)
  /-- The step is done. -/
  | done
  /-- The answers of the steps of a scope, and the failure that left it. -/
  | scope (answers : List Answer) (failure : Option Answer)
  /-- The answers of the steps of a task, and whether it has none left. -/
  | resumed (answers : List Answer) (finished : Bool)
  /-- The step failed. -/
  | failed (e : Thrown)

/-- Whether a step failed. Sources that are refused are an answer of the load, and no failure. -/
def Answer.isFailure : Answer → Bool
  | .failed _ => true
  | _ => false

end Session

end ConfigSource
