import ConfigSource.Log.Logger

/-!
# Trees of loggers

A tree of loggers grows from one root: every step either binds a context to a logger of the tree,
which adds a child under a name, or logs through one of its loggers. A step that is refused leaves
the tree as it was.

* `ConfigSource.Log.Step`: a step on the tree;
* `ConfigSource.Log.Tree.step`, `ConfigSource.Log.Tree.run`: the lines that steps write.
-/

namespace ConfigSource

namespace Log

/-- A step on a tree of loggers. -/
inductive Step where
  /-- Log a message with details. -/
  | log (on : String) (level : Level) (message : String) (details : Value)
  /-- Bind a context; the child is called `as`. -/
  | child (on as : String) (context : Value)

/-- What a step shows. -/
inductive Outcome where
  /-- The lines that a call wrote. -/
  | wrote (lines : List Line)
  /-- A child was made, by a logger that writes or by one that does not. -/
  | child (writes : Bool)
  /-- There is no logger of this name. -/
  | unknown (name : String)
  /-- The details or the context were refused. -/
  | refused (error : Value)

/-- The loggers of a tree, by name. -/
abbrev Tree := Table Logger

namespace Tree

/-- The tree of a root alone. -/
def ofRoot (root : Logger) : Tree := [("root", root)]

/-- What a logger shows of a call. -/
def log (now : Int) (logger : Logger) (level : Level) (message : String) (details : Value) :
    Outcome :=
  match logger.write now level message details with
  | .ok lines => .wrote lines
  | .error e => .refused e

/-- Whether a logger writes at all. -/
def writes : Logger → Bool
  | .null => false
  | .bound _ _ _ => true

/-- One step. -/
def step (now : Int) (t : Tree) : Step → Outcome × Tree
  | .log on level message details =>
    match t.get? on with
    | some logger => (log now logger level message details, t)
    | none => (.unknown on, t)
  | .child on as context =>
    match t.get? on with
    | some logger =>
      match logger.child now context with
      | .ok made => (.child (writes logger), t.set as made)
      | .error e => (.refused e, t)
    | none => (.unknown on, t)

/-- The outcomes of steps, one after the other. -/
def run (now : Int) : Tree → List Step → List Outcome
  | _, [] => []
  | t, s :: rest => (step now t s).1 :: run now (step now t s).2 rest

end Tree

end Log

end ConfigSource
