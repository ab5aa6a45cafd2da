import ConfigSource.Options

/-!
# Answering include directives

An **include context** is what an includer knows of the source that contains a directive: where that
source is, and the options for what it includes. Asking a chain leaves a **trace**, the rule lists
that were consulted with the directive each was asked about, also if the asking fails. It is traced,
too, whether the load context of the options was asked for.

A rule may hand a directive on to the includer of the context. The context stays the same, so
handing on ends unless a target comes up that is being asked about already; the number of such rules
bounds how deep it can go, and beyond it the asking fails as an endless recursion.

* `ConfigSource.IncludeContext`, `ConfigSource.Registry.includeContext`;
* `ConfigSource.Call`, `ConfigSource.Trace`: what is left of an asking;
* `ConfigSource.Surroundings`: what a leaf can ask of its context;
* `ConfigSource.Leaf.answer`, `ConfigSource.Includer.resolve`: the answer of a leaf and of a chain.
-/

namespace ConfigSource

/-- The source that contains an include directive. -/
structure IncludeContext where
  /-- The options of that source. -/
  options : OptionsId
  /-- The options for what it includes. -/
  included : OptionsId
  /-- Where that source is. -/
  location : Option String

/-- The include context of a source. -/
def Registry.includeContext (r : Registry) (o : OptionsId) (location : Option String) :
    IncludeContext × Registry :=
  let cleared := r.clearForInclude o
  (⟨o, cleared.1, location⟩, cleared.2)

/-- One rule list that was asked, and about what. -/
structure Call where
  /-- The name of the rule list. -/
  includer : String
  /-- The directive. -/
  what : String
deriving DecidableEq

/-- What is left of an asking. -/
structure Trace where
  /-- The rule lists that were asked, one after the other. -/
  calls : List Call
  /-- Whether the load context of the options was asked for. -/
  contextAsked : Bool

namespace Trace

/-- Nothing was asked yet. -/
def empty : Trace := ⟨[], false⟩

/-- The trace with one more call. -/
def call (t : Trace) (c : Call) : Trace := { t with calls := t.calls ++ [c] }

/-- The trace after the load context was asked for. -/
def askContext (t : Trace) : Trace := { t with contextAsked := true }

end Trace

/-- An asking that may fail and leaves a trace in either case. -/
abbrev Asking (α : Type) := ExceptT Thrown (StateM Trace) α

/-- What a leaf can ask of its include context. -/
structure Surroundings where
  /-- A name, seen from the including source. -/
  relative : String → Option String
  /-- The includer of the options for the included source. -/
  includer : Option Includer
  /-- A description of these options, with their load context. -/
  description : Except Thrown Value
  /-- The location of a resource, in the load context of these options. -/
  locate : String → Except Thrown (Option String)

/-- A document, unless it is `undefined`. -/
def given (name : String) (value : Value) : Option Reply :=
  if value.isUndefined then none else some ⟨value, name⟩

/-- What documents in memory answer: the document of the directive as it is written, or else the one
of the name it has from the including source. What counts as nothing is no document. -/
def answerFromDocuments (s : Surroundings) (name : String) (documents : Table Value)
    (what : String) : Option Reply :=
  let document (key : String) : Option Value :=
    match documents.get? key with
    | some v => if v.isTruthy then some v else none
    | none => none
  ((document what).or ((s.relative what).bind document)).map fun v => ⟨v, name⟩

/-- What comes of asking for the load context. -/
def askingContext {α : Type} (outcome : Except Thrown α) : Asking α := do
  modify Trace.askContext
  match outcome with
  | .ok a => pure a
  | .error e => throw e

/-- What a rule answers, with `handOn` for asking about another directive. -/
def Rule.answer (s : Surroundings) (handOn : String → Asking (Option Reply)) (name : String)
    (r : Rule) (what : String) : Asking (Option Reply) :=
  match r.action with
  | .give value => pure (given name value)
  | .defer => pure none
  | .fail error => throw (.value error)
  | .rest => pure (given name (.record [("rest", .text (r.restOf what))]))
  | .relative => pure (given name (.record [("relative", Value.ofText? (s.relative what))]))
  | .options => do pure (given name (← askingContext s.description))
  | .locate => do
    match ← askingContext (s.locate what) with
    | some place => pure (given name (.record [("location", .text place)]))
    | none => pure none
  | .redirect target => do
    match ← handOn target with
    | some reply => pure (given name reply.value)
    | none => pure none

/-- What a leaf answers. -/
def Leaf.answer (s : Surroundings) (handOn : String → Asking (Option Reply)) (what : String) :
    Leaf → Asking (Option Reply)
  | .documents name held => pure (answerFromDocuments s name held what)
  | .rules name listed => do
    modify (·.call ⟨name, what⟩)
    match listed.find? (·.matches what) with
    | some rule => rule.answer s handOn name what
    | none => pure none

namespace Includer

/-- Asks an includer; directives can be handed on `depth` times. -/
def resolveWithin (s : Surroundings) : Nat → Option Includer → String → Asking (Option Reply)
  | _, none, _ => pure none
  | 0, some includer, what =>
    includer.ask fun leaf =>
      leaf.answer s (fun _ => throw (.value .endlessRecursion)) what
  | depth + 1, some includer, what =>
    includer.ask fun leaf => leaf.answer s (resolveWithin s depth s.includer) what

/-- Whether a rule hands a directive on. -/
def redirects (rule : Rule) : Bool :=
  match rule.action with
  | .redirect _ => true
  | _ => false

/-- The rules of a leaf that hand a directive on. -/
def redirections : Leaf → List Rule
  | .documents _ _ => []
  | .rules _ listed => listed.filter redirects

/-- The number of rules of an includer that hand a directive on. -/
def redirectCount (includer : Option Includer) : Nat :=
  match includer with
  | some includer => (includer.leaves.flatMap redirections).length
  | none => 0

/-- Asks an includer; without one, everything is deferred. -/
def resolve (s : Surroundings) (includer : Option Includer) (what : String) :
    Asking (Option Reply) :=
  resolveWithin s (redirectCount includer + redirectCount s.includer + 1) includer what

end Includer

end ConfigSource
