import ConfigSource.Log.Script

/-!
# Handles of loggers

A logger is handed out as a **handle**: the logger, together with the level that was asked for where
its root was opened. A handle is opened over a **ground**, which is nothing at all, a destination of
its own, or a logger. Over a destination the level that is asked for becomes the threshold. A logger
has a threshold already, and it is the one that counts: what is asked for is kept and does nothing.

A child is opened over the logger of its parent, and the same level is asked for again.

* `ConfigSource.Log.Ground`, `ConfigSource.Log.Ground.opened`: the logger that a ground gives;
* `ConfigSource.Log.Handle`, `ConfigSource.Log.Handle.make`, `ConfigSource.Log.Handle.child`;
* `ConfigSource.Log.Handles.step`, `ConfigSource.Log.Handles.run`: steps on a tree of handles;
* `ConfigSource.Log.transcript`: what steps show on a root that is opened for them.
-/

namespace ConfigSource

namespace Log

/-- What a handle is opened over. -/
inductive Ground where
  /-- Nothing, so that nothing is written. -/
  | nothing
  /-- A destination of its own. -/
  | destination
  /-- A logger to which nothing is bound and whose own level has this name. -/
  | unbound (own : Option String)
  /-- A logger. -/
  | logger (base : Logger)

/-- The logger that a ground gives at the instant `now`, with a context bound to it, where a level
is asked for. -/
def Ground.opened (now : Int) (asked : Option String) (context : Value) :
    Ground → Except Value Logger
  | nothing => .ok .null
  | destination => openDestination now asked context
  | unbound own => openOver now own context
  | logger base => base.child now context

/-- A logger as it is handed out. -/
structure Handle where
  /-- What writes. -/
  logger : Logger
  /-- The level that was asked for. -/
  asked : Option String

namespace Handle

/-- The handle that is opened over a ground. -/
def make (now : Int) (ground : Ground) (asked : Option String) (context : Value) :
    Except Value Handle :=
  (ground.opened now asked context).map fun logger => ⟨logger, asked⟩

/-- The handle of a child: it is opened over the logger of its parent, and asked for the same
level. -/
def child (h : Handle) (now : Int) (context : Value) : Except Value Handle :=
  make now (.logger h.logger) h.asked context

end Handle

/-- The handles of a tree, by name. -/
abbrev Handles := Table Handle

namespace Handles

/-- The handle of a root alone. -/
def ofRoot (root : Handle) : Handles := [("root", root)]

/-- One step. -/
def step (now : Int) (t : Handles) : Step → Outcome × Handles
  | .log on level message details =>
    match t.get? on with
    | some h => (Tree.log now h.logger level message details, t)
    | none => (.unknown on, t)
  | .child on as context =>
    match t.get? on with
    | some h =>
      match h.child now context with
      | .ok made => (.child (Tree.writes h.logger), t.set as made)
      | .error e => (.refused e, t)
    | none => (.unknown on, t)

/-- The outcomes of steps, one after the other. -/
def run (now : Int) : Handles → List Step → List Outcome
  | _, [] => []
  | t, s :: rest => (step now t s).1 :: run now (step now t s).2 rest

end Handles

/-- What steps show on a root that is opened for them, or the refusal of the root. -/
def transcript (now : Int) (ground : Ground) (asked : Option String) (context : Value)
    (steps : List Step) : Except Value (List Outcome) :=
  (Handle.make now ground asked context).map fun root => Handles.run now (.ofRoot root) steps

end Log

end ConfigSource
