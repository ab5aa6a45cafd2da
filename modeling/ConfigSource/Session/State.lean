import ConfigSource.FileTree.Remove
import ConfigSource.Session.Step
import ConfigSource.Session.View

/-!
# The state of a session

The state holds the instances that were made, the names that were given to them, the file tree, and
the **ambient** load context: that of the innermost scope that is being run. Outside of any scope
the ambient context is a new one over the working directory, made each time it is asked for. A task
is an instance, too: one that is being run goes on although its name is given to another.

Where the working directory is, is asked for when it is first needed, and then kept. It cannot be
asked for any more once the directory was removed, even if another one is made at its place.

* `ConfigSource.Session.State`: the state;
* `ConfigSource.Session.Knowledge`, `ConfigSource.Session.askDirectory`: what is known of the
  working directory, and asking for it;
* `ConfigSource.Session.State.spawn`, `ConfigSource.Session.State.leave`: tasks and their steps;
* `ConfigSource.Session.within`: running something in another ambient context;
* `ConfigSource.Session.contextOf`: the load context of options, as it is read now;
* `ConfigSource.Session.view`: options as they are shown now.
-/

namespace ConfigSource

namespace Session

/-- Steps that were put aside, with the ambient context they were put aside in. -/
structure Task where
  /-- The ambient context of all its steps. -/
  ambient : Option LoadContext
  /-- The steps that were not run yet. -/
  left : List Step

/-- A task, known by its place among all that were put aside. -/
structure TaskId where
  /-- The place. -/
  index : Nat
deriving DecidableEq

/-- What is known of the working directory. -/
inductive Knowledge where
  /-- Nothing, since nobody asked for it. -/
  | unasked
  /-- Where it is. -/
  | known
  /-- Nothing, since it was removed before anybody asked. -/
  | lost
deriving DecidableEq

/-- The state of a session. -/
structure State where
  /-- The instant of the session. -/
  now : Int
  /-- The working directory. -/
  directory : String
  /-- What is known of the working directory. -/
  knowledge : Knowledge
  /-- The instances that were made. -/
  registry : Registry
  /-- The names of options. -/
  options : Table OptionsId
  /-- The names of includers. -/
  includers : Table Includer
  /-- The names of include contexts. -/
  contexts : Table IncludeContext
  /-- The names of load contexts. -/
  loads : Table LoadContext
  /-- All tasks, in the order in which they were put aside. -/
  spawned : List Task
  /-- The names of tasks. -/
  tasks : Table TaskId
  /-- The file tree. -/
  files : FileTree
  /-- The context of the innermost scope. -/
  ambient : Option LoadContext

namespace State

/-- The state in which a session begins. -/
def start (now : Int) (directory : String) (files : FileTree) : State :=
  { now := now
    directory := directory
    knowledge := .unasked
    registry := .empty
    options := []
    includers := []
    contexts := []
    loads := []
    spawned := []
    tasks := []
    files := files
    ambient := none }

/-- A task as it stands now. -/
def task (st : State) (t : TaskId) : Task := (st.spawned[t.index]?).getD ⟨none, []⟩

/-- The state with other steps left of a task. -/
def leave (st : State) (t : TaskId) (left : List Step) : State :=
  { st with spawned := st.spawned.set t.index ⟨(st.task t).ambient, left⟩ }

/-- The state with a task of this name, which belongs to the ambient context. -/
def spawn (st : State) (name : String) (steps : List Step) : State :=
  { st with
    spawned := st.spawned ++ [⟨st.ambient, steps⟩]
    tasks := st.tasks.set name ⟨st.spawned.length⟩ }

/-- What an includer is called. -/
def includerName (st : State) (identity : Identity) : Option String :=
  Table.firstWhere (fun i => i.identity == identity) st.includers

/-- What a load context is called. -/
def loadName (st : State) (identity : Identity) : Option String :=
  Table.firstWhere (fun c => c.identity == identity) st.loads

/-- An includer as it is shown. -/
def viewIncluder (st : State) (i : Includer) : IncluderView :=
  .ofIncluder st.includerName i

/-- A load context as it is shown. -/
def viewContext (st : State) (c : LoadContext) : ContextView := ⟨c.name, st.loadName c.identity⟩

/-- Options as they are shown, with the load context that is read. -/
def viewOptions (st : State) (o : OptionsId) (c : LoadContext) : OptionsView :=
  let fields := st.registry.read o
  { dialect := fields.dialect
    originDescription := fields.originDescription
    allowMissing := fields.allowMissing
    includer := fields.includer.map st.viewIncluder
    hasLoadContext := fields.loadContext.isSome
    loadContext := st.viewContext c }

/-- The location of a resource in a load context. -/
def locate (st : State) (c : LoadContext) (resource : String) : Except Thrown (Option String) :=
  (c.locate st.files.stat resource).mapError .system

/-- What a leaf can ask of an include context, with the load context that is read. -/
def surroundings (st : State) (c : IncludeContext) (read : Except Thrown LoadContext) :
    Surroundings :=
  { relative := Path.relativeTo c.location
    includer := (st.registry.read c.included).includer
    description := read.map fun k => .record (st.viewOptions c.included k).members
    locate := fun resource => read.bind fun k => st.locate k resource }

/-- What is known of the working directory, in the light of the file tree. -/
def knowledgeNow (st : State) : Knowledge :=
  if st.knowledge = .unasked ∧ st.files.stat st.directory ≠ .other then .lost else st.knowledge

/-- The state with another file tree. -/
def keepFiles (st : State) (files : FileTree) : State :=
  let kept := { st with files := files }
  { kept with knowledge := kept.knowledgeNow }

end State

/-- A step that changes the state and may fail. -/
abbrev Run (α : Type) := ExceptT Thrown (StateM State) α

/-- Runs something with another ambient context, and puts the old one back. -/
def within {α : Type} (ambient : Option LoadContext) (body : StateM State α) : StateM State α := do
  let before := (← get).ambient
  modify fun st => { st with ambient := ambient }
  let result ← body
  modify fun st => { st with ambient := before }
  pure result

/-- Changes the file tree; what was done before a refusal stays done. -/
def changeFiles (change : FileTree.Change Unit) : Run Unit := do
  let changed := change.run.run (← get).files
  modify (·.keepFiles changed.2)
  match changed.1 with
  | .ok () => pure ()
  | .error e => throw (.system e)

/-! ### Load contexts that are read -/

/-- Where the working directory is. -/
def askDirectory : Run String := do
  if (← get).knowledge = .lost then throw (.system .missing)
  modify fun st => { st with knowledge := .known }
  pure (← get).directory

/-- The load context that is read where none is set. -/
def ambientContext : Run LoadContext := do
  match (← get).ambient with
  | some c => pure c
  | none => do
    let directory ← askDirectory
    pure (.workingDirectory (← get).registry.nextIdentity directory)

/-- The load context of options: the one that is set, or else the ambient one. -/
def contextOf (o : OptionsId) : Run LoadContext := do
  match ((← get).registry.read o).loadContext with
  | some c => pure c
  | none => ambientContext

/-- Options as they are shown. -/
def view (o : OptionsId) : Run OptionsView := do
  let c ← contextOf o
  pure ((← get).viewOptions o c)

/-! ### Names -/

/-- What is said of a name that stands for nothing. -/
def unknownName (table name : String) : Thrown :=
  .value (.simpleError "Error" ("no " ++ table ++ " " ++ name))

/-- The thing of a name, in a table of this title. -/
def find {α : Type} (title : String) (table : State → Table α) (name : String) : Run α := do
  match (table (← get)).get? name with
  | some a => pure a
  | none => throw (unknownName title name)

/-- The options of a name. -/
def findOptions : String → Run OptionsId := find "options" State.options

/-- The includer of a name. -/
def findIncluder : String → Run Includer := find "includers" State.includers

/-- The include context of a name. -/
def findContext : String → Run IncludeContext := find "contexts" State.contexts

/-- The load context of a name. -/
def findLoad : String → Run LoadContext := find "loads" State.loads

/-- The task of a name. -/
def findTask : String → Run TaskId := find "tasks" State.tasks

/-- Gives options a name. -/
def bindOptions (name : Option String) (o : OptionsId) : Run Unit :=
  modify fun st => { st with options := name.elim st.options fun n => st.options.set n o }

/-- Gives an includer a name. -/
def bindIncluder (name : Option String) (i : Includer) : Run Unit :=
  modify fun st => { st with includers := name.elim st.includers fun n => st.includers.set n i }

/-- Gives a load context a name. -/
def bindLoad (name : Option String) (c : LoadContext) : Run Unit :=
  modify fun st => { st with loads := name.elim st.loads fun n => st.loads.set n c }

/-- Takes over a registry. -/
def keepRegistry (r : Registry) : Run Unit := modify fun st => { st with registry := r }

/-- Hands out an identity. -/
def freshIdentity : Run Identity := do
  let handed := (← get).registry.fresh
  keepRegistry handed.2
  pure handed.1

end Session

end ConfigSource
