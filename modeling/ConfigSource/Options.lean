import ConfigSource.Dialect
import ConfigSource.Includer

/-!
# Options

The **options** of a source say how it is read. They are never changed in place: an update gives a
new instance, or the instance it was made on if it changes nothing.

All instances that were ever made stand in a **registry**, in the order in which they were made, and
an instance is known by its place there. The registry also hands out the identities of includers and
load contexts.

* `ConfigSource.Options`, `ConfigSource.Options.defaults`: the five fields;
* `ConfigSource.Registry`, `ConfigSource.OptionsId`: the instances;
* `ConfigSource.Registry.withDialect` and its companions: the updates;
* `ConfigSource.Registry.prependIncluder`, `ConfigSource.Registry.appendIncluder`: putting an
  includer in front of the one that is set, or behind it;
* `ConfigSource.Registry.clearForInclude`: the options for an included source;
* `ConfigSource.Update`, `ConfigSource.Registry.updateAll`: updates as data, and runs of them.
-/

namespace ConfigSource

/-- How a configuration source is read. -/
structure Options where
  /-- The dialect, if it is not to be guessed. -/
  dialect : Option Dialect
  /-- The basis of the origin of values, if it is not to be derived. -/
  originDescription : Option String
  /-- Whether a missing source counts as an empty one. -/
  allowMissing : Bool
  /-- What answers include directives, if it is not the built-in way. -/
  includer : Option Includer
  /-- Where resources are looked for, if not in the ambient context. -/
  loadContext : Option LoadContext

/-- The options that say nothing. -/
def Options.defaults : Options := ⟨none, none, true, none, none⟩

/-- An instance of options, known by its place in the registry. -/
structure OptionsId where
  /-- The place. -/
  index : Nat
deriving DecidableEq

/-- All instances of options that were made. -/
structure Registry where
  /-- The fields of the instances, in the order in which they were made. -/
  instances : List Options
  /-- The next identity of an includer or a load context. -/
  nextIdentity : Identity

namespace Registry

/-- No instances. -/
def empty : Registry := ⟨[], 0⟩

/-- The fields of an instance. -/
def read (r : Registry) (o : OptionsId) : Options := (r.instances[o.index]?).getD .defaults

/-- Makes a new instance. -/
def make (r : Registry) (fields : Options) : OptionsId × Registry :=
  (⟨r.instances.length⟩, { r with instances := r.instances ++ [fields] })

/-- Hands out an identity. -/
def fresh (r : Registry) : Identity × Registry :=
  (r.nextIdentity, { r with nextIdentity := r.nextIdentity + 1 })

/-- A new instance that says nothing. -/
def defaults (r : Registry) : OptionsId × Registry := r.make .defaults

/-! ### Updates -/

/-- The options with another dialect. -/
def withDialect (r : Registry) (o : OptionsId) (dialect : Option Dialect) :
    OptionsId × Registry :=
  if (r.read o).dialect = dialect then (o, r) else r.make { r.read o with dialect := dialect }

/-- The options with another origin description. -/
def withOriginDescription (r : Registry) (o : OptionsId) (description : Option String) :
    OptionsId × Registry :=
  if (r.read o).originDescription = description then (o, r)
  else r.make { r.read o with originDescription := description }

/-- The options with an origin description, if they had none. -/
def withFallbackOriginDescription (r : Registry) (o : OptionsId) (description : Option String) :
    OptionsId × Registry :=
  if (r.read o).originDescription = none then r.withOriginDescription o description else (o, r)

/-- The options that tolerate a missing source, or do not. -/
def withAllowMissing (r : Registry) (o : OptionsId) (allowMissing : Bool) : OptionsId × Registry :=
  if (r.read o).allowMissing = allowMissing then (o, r)
  else r.make { r.read o with allowMissing := allowMissing }

/-- The options with another includer; two includers are the same if their identities are. -/
def withIncluder (r : Registry) (o : OptionsId) (includer : Option Includer) :
    OptionsId × Registry :=
  if (r.read o).includer.map Chain.identity = includer.map Chain.identity then (o, r)
  else r.make { r.read o with includer := includer }

/-- The options with another load context; two contexts are the same if their identities are. -/
def withLoadContext (r : Registry) (o : OptionsId) (context : Option LoadContext) :
    OptionsId × Registry :=
  if (r.read o).loadContext.map LoadContext.identity = context.map LoadContext.identity then (o, r)
  else r.make { r.read o with loadContext := context }

/-- A new chain of two includers. -/
def chain (r : Registry) (primary secondary : Includer) : Includer × Registry :=
  (.fallback r.fresh.1 primary secondary, r.fresh.2)

/-- The options with a new chain as their includer. -/
def withChain (r : Registry) (o : OptionsId) (primary secondary : Includer) :
    OptionsId × Registry :=
  (r.chain primary secondary).2.withIncluder o (some (r.chain primary secondary).1)

/-- What is said of an update that needs an includer and got none. -/
def missingIncluder (now : Int) (operation : String) : Value :=
  .invalidArgument now ("null includer passed to " ++ operation)
    [("operation", .text operation)]

/-- The options with an includer in front of the one that is set. -/
def prependIncluder (r : Registry) (now : Int) (o : OptionsId) (added : Option Includer) :
    Except Value (OptionsId × Registry) :=
  match added, (r.read o).includer with
  | none, _ => .error (missingIncluder now "prependIncluder")
  | some added, none => .ok (r.withIncluder o (some added))
  | some added, some current =>
    if current.identity = added.identity then .ok (o, r) else .ok (r.withChain o added current)

/-- The options with an includer behind the one that is set. -/
def appendIncluder (r : Registry) (now : Int) (o : OptionsId) (added : Option Includer) :
    Except Value (OptionsId × Registry) :=
  match added, (r.read o).includer with
  | none, _ => .error (missingIncluder now "appendIncluder")
  | some added, none => .ok (r.withIncluder o (some added))
  | some added, some current =>
    if current.identity = added.identity then .ok (o, r) else .ok (r.withChain o current added)

/-- The options for an included source: dialect and description are found anew, and a missing one
is tolerated. -/
def clearForInclude (r : Registry) (o : OptionsId) : OptionsId × Registry :=
  let first := r.withDialect o none
  let second := first.2.withOriginDescription first.1 none
  second.2.withAllowMissing second.1 true

end Registry

/-! ### Updates as data -/

/-- An update of options. Includers and load contexts are given by values of the types `ι` and `κ`,
which may be the things themselves or names for them. -/
inductive Update (ι κ : Type) where
  /-- Another dialect. -/
  | dialect (value : Option Dialect)
  /-- Another origin description. -/
  | originDescription (value : Option String)
  /-- An origin description where there is none. -/
  | fallbackOriginDescription (value : Option String)
  /-- Whether a missing source is tolerated. -/
  | allowMissing (value : Bool)
  /-- Another includer, or none. -/
  | includer (value : Option ι)
  /-- An includer in front of the one that is set. -/
  | prepend (value : Option ι)
  /-- An includer behind the one that is set. -/
  | append (value : Option ι)
  /-- Another load context, or none. -/
  | loadContext (value : Option κ)
  /-- What is needed for an included source. -/
  | clear

/-- Makes an update; one that needs an includer and has none is refused. -/
def Registry.update (r : Registry) (now : Int) (o : OptionsId) :
    Update Includer LoadContext → Except Value (OptionsId × Registry)
  | .dialect value => .ok (r.withDialect o value)
  | .originDescription value => .ok (r.withOriginDescription o value)
  | .fallbackOriginDescription value => .ok (r.withFallbackOriginDescription o value)
  | .allowMissing value => .ok (r.withAllowMissing o value)
  | .includer value => .ok (r.withIncluder o value)
  | .prepend value => r.prependIncluder now o value
  | .append value => r.appendIncluder now o value
  | .loadContext value => .ok (r.withLoadContext o value)
  | .clear => .ok (r.clearForInclude o)

/-- Makes updates one after the other; a refused one is passed over. -/
def Registry.updateAll (now : Int) (r : Registry) (o : OptionsId) :
    List (Update Includer LoadContext) → OptionsId × Registry
  | [] => (o, r)
  | u :: rest =>
    match r.update now o u with
    | .ok (o, r) => updateAll now r o rest
    | .error _ => updateAll now r o rest

end ConfigSource
