import ConfigSource.Session.State

/-!
# Running a session

Every step answers. A step that fails is answered by its failure, gives no name, and the session
goes on; only inside a scope that stops at failures the steps behind it are left out. A failure that
cannot be shown is a failure of what runs the step: of the scope, of the task, or of the session.

Steps inside steps are run to a **depth** that the whole session cannot exceed, since no step is run
twice: it is the number of all steps of the session.

* `ConfigSource.Session.perform`: one step;
* `ConfigSource.Session.performAll`, `ConfigSource.Session.goOn`: the steps of a scope and of a
  task;
* `ConfigSource.Session.answers`: the answers of a session.
-/

namespace ConfigSource

namespace Session

/-! ### Steps without steps inside -/

/-- Options, bound and shown. -/
def showOptions (as : Option String) (o : OptionsId) (same : Option Bool) : Run Answer := do
  bindOptions as o
  pure (.options (← view o) same)

/-- An includer, bound and shown. -/
def showIncluder (as : Option String) (i : Includer) : Run Answer := do
  bindIncluder as i
  pure (.includer (some ((← get).viewIncluder i)))

/-- A load context, bound and shown. -/
def showLoad (as : Option String) (c : LoadContext) : Run Answer := do
  bindLoad as c
  pure (.loadContext ((← get).viewContext c))

/-- The thing of a name, where there is a name. -/
def findIfNamed {α : Type} (look : String → Run α) : Option String → Run (Option α)
  | none => pure none
  | some name => do pure (some (← look name))

/-- An update with the things that its names stand for. -/
def named : Update String String → Run (Update Includer LoadContext)
  | .dialect value => pure (.dialect value)
  | .originDescription value => pure (.originDescription value)
  | .fallbackOriginDescription value => pure (.fallbackOriginDescription value)
  | .allowMissing value => pure (.allowMissing value)
  | .includer value => do pure (.includer (← findIfNamed findIncluder value))
  | .prepend value => do pure (.prepend (← findIfNamed findIncluder value))
  | .append value => do pure (.append (← findIfNamed findIncluder value))
  | .loadContext value => do pure (.loadContext (← findIfNamed findLoad value))
  | .clear => pure .clear

/-- Updates options. -/
def update (on : String) (change : Update String String) (as : Option String) : Run Answer := do
  let o ← findOptions on
  let change ← named change
  let st ← get
  match st.registry.update st.now o change with
  | .ok (result, registry) => do
    keepRegistry registry
    showOptions as result (some (result == o))
  | .error e => throw (.value e)

/-- The base of a load: the one that is named, or a new instance that says nothing. -/
def baseOf : Option String → Run OptionsId
  | some name => findOptions name
  | none => do
    let made := (← get).registry.defaults
    keepRegistry made.2
    pure made.1

/-- The logger of a load: one of the level that is asked for, or one that writes nothing. -/
def loggerOf (level : Option String) : Run Log.Logger := do
  match level with
  | none => pure .null
  | some name =>
    match Log.openDestination (← get).now (some name) .undefined with
    | .ok logger => pure logger
    | .error e => throw (.value e)

/-- What is thrown, unless it cannot be shown. -/
def shown (e : Thrown) : Run Thrown :=
  if e.isShown then pure e else throw (.value .withoutText)

/-- Loads settings. -/
def load (sources : List Source) (base level : Option String) (as : Option String) :
    Run Answer := do
  let o ← baseOf base
  let logger ← loggerOf level
  let st ← get
  let outcome := st.registry.load st.now logger sources o
  let lines := level.map fun _ => outcome.2
  keepRegistry outcome.1.2
  match outcome.1.1 with
  | .ok result => do
    bindOptions as result
    pure (.loaded (← view result) (base.map fun _ => result == o) lines)
  | .error e => pure (.loadRefused (← shown (.value e)) lines)

/-- Asks an includer. -/
def ask (includer : Option Includer) (context : IncludeContext) (what : String) : Run Answer := do
  let st ← get
  let read := (contextOf context.included).run.run st
  let asked :=
    (Includer.resolve (st.surroundings context read.1) includer what).run.run Trace.empty
  if asked.2.contextAsked then set read.2
  match asked.1 with
  | .ok reply => pure (.reply (.ok reply) asked.2.calls)
  | .error e => pure (.reply (.error (← shown e)) asked.2.calls)

/-- The load context in which a resource is looked for. -/
def Located.context : Located → Run LoadContext
  | .inOptions name => do
    let o ← findOptions name
    contextOf o
  | .inContext name => findLoad name
  | .inAmbient => ambientContext

/-- A result of the file system or of a search. -/
def settled {α : Type} : Except Thrown α → Run α
  | .ok a => pure a
  | .error e => throw e

/-- Whether the working directory has to be known to see directories from `start`. -/
def needsDirectory (start : Option String) (directories : List String) : Bool :=
  match start with
  | some place => !Path.isAbsolute place && directories.any fun d => !Path.isAbsolute d
  | none => true

/-- A step without steps inside; the others are none of its business. -/
def performSimple : Step → Run Answer
  | .defaults as => do
    let made := (← get).registry.defaults
    keepRegistry made.2
    showOptions (some as) made.1 none
  | .update on change as => update on change as
  | .describe on => do
    let o ← findOptions on
    pure (.options (← view o) none)
  | .load sources base level as => load sources base level as
  | .includer leaf as => do
    let identity ← freshIdentity
    showIncluder (some as) (.leaf identity leaf)
  | .chain primary secondary as => do
    let primary ← findIncluder primary
    let secondary ← findIncluder secondary
    let made := (← get).registry.chain primary secondary
    keepRegistry made.2
    showIncluder (some as) made.1
  | .takeIncluder on as => do
    let o ← findOptions on
    match ((← get).registry.read o).includer with
    | some i => showIncluder as i
    | none => pure (.includer none)
  | .includeContext options location as => do
    let o ← findOptions options
    let made := (← get).registry.includeContext o location
    keepRegistry made.2
    modify fun st => { st with contexts := st.contexts.set as made.1 }
    pure .done
  | .relative on name => do
    let c ← findContext on
    pure (.relative (Path.relativeTo c.location name))
  | .includedOptions on as => do
    let c ← findContext on
    bindOptions as c.included
    pure (.included (← view c.included) (c.included == c.options) true)
  | .ask on context what => do
    let i ← findIncluder on
    let c ← findContext context
    ask (some i) c what
  | .resolve options context what => do
    let o ← findOptions options
    let c ← findContext context
    ask ((← get).registry.read o).includer c what
  | .memoryContext name locations as => do
    let identity ← freshIdentity
    showLoad (some as) ⟨identity, name, .table locations⟩
  | .rootsContext name directories start as => do
    if needsDirectory start directories then let _ ← askDirectory
    let identity ← freshIdentity
    let directory := (← get).directory
    showLoad (some as)
      (.ofRoots identity name (Path.resolve directory (start.getD "")) directories)
  | .contextOf on as => do
    let o ← findOptions on
    let c ← contextOf o
    let _ ← freshIdentity
    showLoad as c
  | .ambientContext as => do
    let c ← ambientContext
    let _ ← freshIdentity
    showLoad as c
  | .locate place resource => do
    let c ← place.context
    pure (.location (← settled ((← get).locate c resource)))
  | .write files => do
    changeFiles (FileTree.writeAll files)
    pure .done
  | .remove path => do
    changeFiles (FileTree.remove path)
    pure .done
  | .fail error => throw (.value error)
  | .spawn as steps => do
    modify fun st => st.spawn as steps
    pure .done
  | .scope _ _ _ => pure .done
  | .resume _ _ => pure .done

/-! ### Steps with steps inside -/

/-- The answer of a step, a failure that can be shown being one. -/
def answered (step : Run Answer) : Run Answer := do
  match ← ExceptT.lift step.run with
  | .ok a => pure a
  | .error e => pure (.failed (← shown e))

/-- The answers of steps, one after the other; if `stops`, up to the first failure, which is given
apart. -/
def performAll (one : Step → Run Answer) (stops : Bool) :
    List Step → Run (List Answer × Option Answer)
  | [] => pure ([], none)
  | s :: rest => do
    let a ← one s
    if stops && a.isFailure then pure ([], some a)
    else
      let later ← performAll one stops rest
      pure (a :: later.1, later.2)

/-- The answers of the next steps of a task, at most `count` of them. Each step is taken off the
task before it is run, in the ambient context of the task. -/
def goOn (one : Step → Run Answer) (t : TaskId) : Nat → Run (List Answer)
  | 0 => pure []
  | count + 1 => do
    let task := (← get).task t
    match task.left with
    | s :: rest => do
      modify fun st => st.leave t rest
      let a ← ExceptT.mk (within task.ambient (one s).run)
      let others ← goOn one t count
      pure (a :: others)
    | [] => pure []

/-- One step, with steps inside steps run to this depth. -/
def perform : Nat → Step → Run Answer
  | 0, _ => throw (.value .endlessRecursion)
  | depth + 1, .scope context steps stops => do
    let c ← findLoad context
    let ran ← ExceptT.mk
      (within (some c) (performAll (fun s => answered (perform depth s)) stops steps).run)
    pure (.scope ran.1 ran.2)
  | depth + 1, .resume task count => do
    let t ← findTask task
    let left := ((← get).task t).left.length
    let ran ← goOn (fun s => answered (perform depth s)) t (count.getD left)
    pure (.resumed ran ((← get).task t).left.isEmpty)
  | _ + 1, s => performSimple s

/-- The answers of a session that begins in this state, or what is thrown in place of them. -/
def answers (st : State) (steps : List Step) : Except Thrown (List Answer) :=
  let depth := Step.totalSize steps + 1
  ((performAll (fun s => answered (perform depth s)) false steps).run.run st).1.map Prod.fst

end Session

end ConfigSource
