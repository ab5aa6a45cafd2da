import ConfigSource.LoadContext

/-!
# Include chains

An **includer** answers include directives, or **defers** them. Two includers make a **chain**: the
primary is asked first, and the fallback only for what the primary defers. Chains nest on both
sides, and every includer has an identity, so that one and the same includer can be recognized.

What a leaf is stays open here: a chain is built over any type of leaves, and asking goes on in any
monad, so that an answer may fail or leave a trace.

* `ConfigSource.Chain`, `ConfigSource.Chain.leaves`: a chain and its leaves from left to right;
* `ConfigSource.Chain.ask`: asking a chain;
* `ConfigSource.Reply`: an answer, or the deferral of one;
* `ConfigSource.Leaf`, `ConfigSource.Includer`: documents in memory and lists of rules.
-/

namespace ConfigSource

/-- Leaves of type `α`, composed by fallback. -/
inductive Chain (α : Type) where
  /-- A single includer. -/
  | leaf (identity : Identity) (a : α)
  /-- Two includers, of which the second is asked for what the first defers. -/
  | fallback (identity : Identity) (primary secondary : Chain α)

namespace Chain

variable {α β : Type}

/-- What tells the includer from others. -/
def identity : Chain α → Identity
  | .leaf identity _ => identity
  | .fallback identity _ _ => identity

/-- The leaves, from left to right. -/
def leaves : Chain α → List α
  | .leaf _ a => [a]
  | .fallback _ primary secondary => primary.leaves ++ secondary.leaves

/-- The name of a chain: the names of its two parts with an arrow between them. -/
def name (leafName : α → String) : Chain α → String
  | .leaf _ a => leafName a
  | .fallback _ primary secondary =>
    primary.name leafName ++ " -> " ++ secondary.name leafName

/-- Asks a chain: a reply that is nothing defers. -/
def ask {m : Type → Type} [Monad m] (askLeaf : α → m (Option β)) : Chain α → m (Option β)
  | .leaf _ a => askLeaf a
  | .fallback _ primary secondary => do
    match ← primary.ask askLeaf with
    | some reply => pure (some reply)
    | none => secondary.ask askLeaf

end Chain

/-- The answer of an includer: a document and the name of the leaf that gave it. -/
structure Reply where
  /-- The included document. -/
  value : Value
  /-- The leaf that answered. -/
  includer : String

/-! ### Leaves -/

/-- What a rule does with a directive that it matches. -/
inductive Action where
  /-- Gives a document; `undefined` defers. -/
  | give (value : Value)
  /-- Defers. -/
  | defer
  /-- Fails. -/
  | fail (error : Value)
  /-- Gives the rest of the directive, after the beginning that was matched. -/
  | rest
  /-- Gives the directive as seen from the including source. -/
  | relative
  /-- Gives the options for the included source. -/
  | options
  /-- Gives the location of the resource, deferring if there is none. -/
  | locate
  /-- Gives the document that another directive includes. -/
  | redirect (target : String)

/-- A rule of a rule list. -/
structure Rule where
  /-- The directive that is matched, if only one is. -/
  exact : Option String
  /-- The beginning of the directives that are matched. -/
  start : Option String
  /-- What is done. -/
  action : Action

/-- Whether a rule matches a directive. -/
def Rule.matches (r : Rule) (what : String) : Bool :=
  r.exact.all (· == what) && r.start.all fun start => start.toList.isPrefixOf what.toList

/-- The directive without the beginning that a rule matches. -/
def Rule.restOf (r : Rule) (what : String) : String :=
  String.ofList (what.toList.drop (r.start.getD "").length)

/-- A single includer. -/
inductive Leaf where
  /-- Documents by name. -/
  | documents (name : String) (documents : Table Value)
  /-- A list of rules, of which the first that matches counts. -/
  | rules (name : String) (rules : List Rule)

/-- The name of a leaf. -/
def Leaf.name : Leaf → String
  | .documents name _ => name
  | .rules name _ => name

/-- A chain of documents and rule lists. -/
abbrev Includer := Chain Leaf

/-- The name of an includer. -/
def Includer.title (i : Includer) : String := Chain.name Leaf.name i

end ConfigSource
