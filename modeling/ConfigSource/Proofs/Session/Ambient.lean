import ConfigSource.Proofs.Session.Keeping

/-!
# The ambient context by position

The ambient load context is kept in the state: a scope puts its own there and puts the old one back,
and so does a task for each of its steps. What a step reads is nevertheless told by where the step
stands – by its **position**: the scopes of its own task that it stands in, and the context that the
task was started in.

* `ConfigSource.Session.Position.current`: the context of the innermost scope, or else the one that
  the task was started in.
* `ConfigSource.Session.lexical`: the steps run by position. A scope hands its context down to the
  steps inside and nothing is put back, since nothing was put into the state.
* A run by position is the same whatever the ambient context is (`ConfigSource.Session.Blind`), and
  running in the state is running by position (`ConfigSource.Session.sameAt_perform`).
* `ConfigSource.Session.reads_by_position`: what is read at a position after whatever was run there.
-/

namespace ConfigSource

namespace Session

/-! ### Positions -/

/-- Where a step stands. -/
structure Position where
  /-- The contexts of the scopes of its own task that it stands in, the innermost first. -/
  scopes : List LoadContext
  /-- The context that its task was started in. -/
  started : Option LoadContext

namespace Position

/-- The context of the innermost scope, or else the one that the task was started in. -/
def current (p : Position) : Option LoadContext := p.scopes.head?.or p.started

/-- The position in one more scope. -/
def enter (p : Position) (c : LoadContext) : Position := { p with scopes := c :: p.scopes }

/-- The position of the steps of a task. -/
def ofTask (t : Task) : Position := ⟨[], t.ambient⟩

/-- **What is read at a position** where a load context is set, or none: the one that is set, or
else that of the position. If there is neither, a new context over the working directory is read,
which is held nowhere; where the working directory was lost, it cannot be asked for. -/
def Gives (p : Position) (set : Option LoadContext) (st : State)
    (read : Except Thrown LoadContext × State) : Prop :=
  match set.or p.current with
  | some c => read = (.ok c, st)
  | none =>
    if st.knowledge = .lost then read = (.error (.system .missing), st)
    else
      ∃ c, read = (.ok c, { st with knowledge := .known }) ∧ c.name = "cwd" ∧
        c.lookup = .roots [Path.resolve st.directory st.directory] ∧
        ∀ d, st.Holds d → d.identity ≠ c.identity

end Position

/-! ### Running by position -/

/-- The answers of the next steps of a task, each run at the position of the task. -/
def goOnAt (one : Position → Step → Run Answer) (t : TaskId) : Nat → Run (List Answer)
  | 0 => pure []
  | count + 1 => do
    let task := (← get).task t
    match task.left with
    | s :: rest => do
      modify fun st => st.leave t rest
      let a ← one (.ofTask task) s
      let others ← goOnAt one t count
      pure (a :: others)
    | [] => pure []

/-- One step at a position. A step without steps inside is given the context of its position. -/
def lexical : Nat → Position → Step → Run Answer
  | 0, _, _ => throw (.value .endlessRecursion)
  | depth + 1, p, .scope context steps stops => do
    let c ← findLoad context
    let ran ← performAll (fun s => answered (lexical depth (p.enter c) s)) stops steps
    pure (.scope ran.1 ran.2)
  | depth + 1, _, .resume task count => do
    let t ← findTask task
    let left := ((← get).task t).left.length
    let ran ← goOnAt (fun q s => answered (lexical depth q s)) t (count.getD left)
    pure (.resumed ran ((← get).task t).left.isEmpty)
  | _ + 1, p, s => inContext p.current (performSimple s)

section Running

variable {α β : Type} {st : State} {m m' : Run α} {f f' : α → Run β} {p : Position}
  {one one' : Step → Run Answer}

/-! ### Whatever the ambient context is -/

/-- It comes to the same whatever the ambient context is, which it leaves alone. -/
def Blind (m : Run α) : Prop :=
  ∀ st a, m.outcome { st with ambient := a }
    = ((m.outcome st).1, { (m.outcome st).2 with ambient := a })

theorem Blind.ambient_eq (h : Blind m) (st : State) : (m.outcome st).2.ambient = st.ambient :=
  congrArg (fun r => r.2.ambient) (h st st.ambient)

theorem blind_inContext (c : Option LoadContext) (m : Run α) : Blind (inContext c m) :=
  fun _ _ => rfl

theorem blind_pure (a : α) : Blind (pure a : Run α) := fun _ _ => rfl

theorem blind_throw (e : Thrown) : Blind (throw e : Run α) := fun _ _ => rfl

theorem Blind.bind (hm : Blind m) (hf : ∀ a, Blind (f a)) : Blind (m >>= f) := by
  intro st a
  rw [outcome_bind, outcome_bind, hm st a]
  rcases m.outcome st with ⟨result, st'⟩
  cases result with
  | ok b => exact hf b st' a
  | error e => rfl

theorem blind_get_bind {g : State → Run β} (hg : ∀ st a, g { st with ambient := a } = g st)
    (h : ∀ st, Blind (g st)) : Blind (get >>= g) := by
  intro st a
  rw [outcome_get_bind, outcome_get_bind, hg]
  exact h st st a

theorem blind_find {title : String} {table : State → Table α}
    (htable : ∀ st a, table { st with ambient := a } = table st) (name : String) :
    Blind (find title table name) := by
  refine blind_get_bind (fun st a => by rw [htable]) fun st => ?_
  split
  · exact blind_pure _
  · exact blind_throw _

theorem blind_shown (e : Thrown) : Blind (shown e) := by
  unfold shown
  split
  · exact blind_pure e
  · exact blind_throw _

theorem Blind.answered {step : Run Answer} (h : Blind step) : Blind (answered step) := by
  have hlift : Blind (ExceptT.lift step.run) := fun st a => by
    rw [outcome_lift, outcome_lift, h st a]
  refine hlift.bind fun result => ?_
  cases result with
  | ok a => exact blind_pure a
  | error e => exact (blind_shown e).bind fun _ => blind_pure _

theorem blind_performAll (h : ∀ s, Blind (one s)) (stops : Bool) (steps : List Step) :
    Blind (performAll one stops steps) := by
  induction steps with
  | nil => exact blind_pure _
  | cons s rest ih =>
    refine (h s).bind fun a => ?_
    split
    · exact blind_pure _
    · exact ih.bind fun _ => blind_pure _

theorem blind_goOnAt {one : Position → Step → Run Answer} (h : ∀ p s, Blind (one p s)) (t : TaskId)
    (count : Nat) : Blind (goOnAt one t count) := by
  induction count with
  | zero => exact blind_pure _
  | succ count ih =>
    refine blind_get_bind (fun _ _ => rfl) fun st => ?_
    dsimp only
    split
    · refine Blind.bind (fun _ _ => rfl) fun _ => (h _ _).bind fun _ => ?_
      exact ih.bind fun _ => blind_pure _
    · exact blind_pure _

/-- **A run by position is the same whatever the ambient context is.** -/
theorem blind_lexical (depth : Nat) (p : Position) (s : Step) : Blind (lexical depth p s) := by
  induction depth generalizing p s with
  | zero => exact blind_throw _
  | succ depth ih =>
    cases s with
    | scope context steps stops =>
      refine (blind_find (fun _ _ => rfl) context).bind fun c => ?_
      exact (blind_performAll (fun s => (ih _ s).answered) stops steps).bind fun _ => blind_pure _
    | resume task count =>
      refine (blind_find (fun _ _ => rfl) task).bind fun t => ?_
      refine blind_get_bind (fun _ _ => rfl) fun st => ?_
      refine (blind_goOnAt (fun q s => (ih q s).answered) t _).bind fun _ => ?_
      exact blind_get_bind (fun _ _ => rfl) fun _ => blind_pure _
    | _ => exact blind_inContext _ _

/-! ### Running in the state is running by position -/

/-- Two ways to run something come to the same where the ambient context is that of a position. -/
def SameAt (p : Position) (m m' : Run α) : Prop :=
  ∀ st, st.IsDated → st.ambient = p.current → m.outcome st = m'.outcome st

theorem outcome_bind_congr {good : α → State → Prop} (hm : m.outcome st = m'.outcome st)
    (hyields : Yields st m good) (hdated : st.IsDated)
    (hf : ∀ a st', st.Keeps st' → good a st' → (f a).outcome st' = (f' a).outcome st') :
    (m >>= f).outcome st = (m' >>= f').outcome st := by
  obtain ⟨hkeeps, hgood⟩ := hyields hdated
  rw [outcome_bind, outcome_bind, ← hm]
  rcases h : m.outcome st with ⟨result, st'⟩
  rw [h] at hkeeps hgood
  cases result with
  | ok a => exact hf a st' hkeeps (hgood a rfl)
  | error e => rfl

theorem SameAt.bind (hm : SameAt p m m') (hkeeps : Keeping m) (hf : ∀ a, SameAt p (f a) (f' a)) :
    SameAt p (m >>= f) (m' >>= f') := fun st hdated hcurrent =>
  outcome_bind_congr (hm st hdated hcurrent) (hkeeps st) hdated fun a st' hst' _ =>
    hf a st' hst'.dated (hst'.ambient.trans hcurrent)

theorem sameAt_rfl (p : Position) (m : Run α) : SameAt p m m := fun _ _ _ => rfl

theorem SameAt.answered {step step' : Run Answer} (h : SameAt p step step')
    (hkeeps : Keeping step) : SameAt p (answered step) (answered step') := by
  have hlift : SameAt p (ExceptT.lift step.run) (ExceptT.lift step'.run) :=
    fun st hdated hcurrent => by rw [outcome_lift, outcome_lift, h st hdated hcurrent]
  exact hlift.bind (keeping_lift hkeeps) fun _ => sameAt_rfl p _

theorem sameAt_performAll (h : ∀ s, SameAt p (one s) (one' s)) (hkeeps : ∀ s, Keeping (one s))
    (stops : Bool) (steps : List Step) :
    SameAt p (performAll one stops steps) (performAll one' stops steps) := by
  induction steps with
  | nil => exact sameAt_rfl p _
  | cons s rest ih =>
    refine (h s).bind (hkeeps s) fun a => ?_
    split
    · exact sameAt_rfl p _
    · exact ih.bind (keeping_performAll hkeeps stops rest) fun _ => sameAt_rfl p _

/-- **Entering and leaving another context**: what is the same there and does not look at the
ambient context can be run without entering. -/
theorem outcome_inContext_eq {q : Position} (hsame : SameAt q m m') (hblind : Blind m')
    (hdated : st.IsDated) (hq : ∀ d, q.current = some d → d.identity < st.registry.nextIdentity) :
    (inContext q.current m).outcome st = m'.outcome st := by
  rw [outcome_inContext, hsame _ (hdated.withAmbient hq) rfl, hblind st q.current]
  exact Prod.ext rfl (congrArg (fun a => { (m'.outcome st).2 with ambient := a })
    (hblind.ambient_eq st).symm)

/-- A step without steps inside that is given the context that is there already. -/
theorem sameAt_performSimple (p : Position) (s : Step) :
    SameAt p (performSimple s) (inContext p.current (performSimple s)) := by
  intro st hdated hcurrent
  have hkept := (keeping_performSimple s st hdated).1.ambient
  rw [outcome_inContext, ← hcurrent]
  exact Prod.ext rfl (congrArg (fun a => { ((performSimple s).outcome st).2 with ambient := a })
    hkept)

/-- **Going on with a task**, each step in the context of the task, is running its steps at its
position, from wherever. -/
theorem sameAt_goOn {one' : Position → Step → Run Answer}
    (hsame : ∀ q s, SameAt q (one s) (one' q s)) (hblind : ∀ q s, Blind (one' q s))
    (hkeeps : ∀ s, Keeping (one s)) (t : TaskId) (count : Nat) :
    SameAt p (goOn one t count) (goOnAt one' t count) := by
  induction count with
  | zero => exact sameAt_rfl p _
  | succ count ih =>
    intro st hdated hcurrent
    rw [goOn, goOnAt, outcome_get_bind, outcome_get_bind]
    dsimp only
    cases (st.task t).left with
    | nil => rfl
    | cons s rest =>
      have hleft := State.keeps_leave hdated t rest
      have htask : ∀ d, (Position.ofTask (st.task t)).current = some d →
          d.identity < (st.leave t rest).registry.nextIdentity := fun d hd => hdated.task_identity t hd
      have hstep := outcome_inContext_eq (hsame (.ofTask (st.task t)) s) (hblind _ s) hleft.dated
        htask
      refine outcome_bind_congr rfl (yields_modify fun h => State.keeps_leave h t rest) hdated ?_
      rintro - st' - rfl
      refine outcome_bind_congr hstep (yields_inContext (hkeeps s) htask) hleft.dated
        fun a st' hst' _ => ?_
      refine (ih.bind (keeping_goOn hkeeps t count) fun _ => sameAt_rfl p _) st' hst'.dated ?_
      exact hst'.ambient.trans hcurrent

/-- **Running in the state is running by position**: what scopes and tasks put there and put back
is the context of the position that each step stands at. -/
theorem sameAt_perform (depth : Nat) (p : Position) (s : Step) :
    SameAt p (perform depth s) (lexical depth p s) := by
  induction depth generalizing p s with
  | zero => exact sameAt_rfl p _
  | succ depth ih =>
    have hkeeps : ∀ s, Keeping (answered (perform depth s)) := fun s =>
      (keeping_perform depth s).answered
    have hsame : ∀ q s, SameAt q (answered (perform depth s)) (answered (lexical depth q s)) :=
      fun q s => (ih q s).answered (keeping_perform depth s)
    have hblind : ∀ q s, Blind (answered (lexical depth q s)) := fun q s =>
      (blind_lexical depth q s).answered
    cases s with
    | scope context steps stops =>
      intro st hdated hcurrent
      refine outcome_bind_congr rfl (yields_findLoad context st) hdated fun c st' hst' hc => ?_
      have henter : ∀ d, (p.enter c).current = some d →
          d.identity < st'.registry.nextIdentity := by
        rintro d hd
        cases hd
        exact hc
      have hinside := sameAt_performAll (hsame (p.enter c)) hkeeps stops steps
      exact outcome_bind_congr
        (outcome_inContext_eq hinside (blind_performAll (hblind _) stops steps) hst'.dated henter)
        (yields_inContext (keeping_performAll hkeeps stops steps) henter) hst'.dated
        fun _ _ _ _ => rfl
    | resume task count =>
      refine (sameAt_rfl p _).bind (keeping_find _ _ task) fun t => ?_
      intro st hdated hcurrent
      rw [outcome_get_bind, outcome_get_bind]
      exact (sameAt_goOn hsame hblind hkeeps t _).bind (keeping_goOn hkeeps t _)
        (fun _ => sameAt_rfl p _) st hdated hcurrent
    | _ => exact sameAt_performSimple p _

end Running

/-! ### What is read -/

/-- **What is read where a position is that of the state.** -/
theorem gives_contextOf {p : Position} {st : State} (hdated : st.IsDated)
    (hcurrent : st.ambient = p.current) (o : OptionsId) :
    p.Gives (st.registry.read o).loadContext st ((contextOf o).outcome st) := by
  rw [outcome_contextOf, hcurrent, Position.Gives]
  cases (st.registry.read o).loadContext.or p.current with
  | some c => rfl
  | none =>
    dsimp only [newContext]
    split
    · rfl
    · exact ⟨.workingDirectory st.registry.nextIdentity st.directory, rfl, rfl, rfl,
        fun d hd => Nat.ne_of_lt (hdated d hd)⟩

/-- **Contexts are read by position.** Steps are run at a position, whatever they are: they may
enter scopes and leave them by returning or by failing, start tasks, and go on with tasks that were
started anywhere, each as far as it is told to.

They run as they do by position, and that does not depend on the ambient context: neither does what
becomes of a task depend on where it is resumed. Afterwards the state is again one of the position.
Every task that was there belongs to the context that it was started in, and a new one to that of
the position. Options that were there have their fields. What is read of options is the context that
is set in them, or that of the position, or a new one over the working directory. -/
theorem reads_by_position (depth : Nat) (p : Position) (stops : Bool) (steps : List Step)
    {st : State} (hdated : st.IsDated) (hcurrent : st.ambient = p.current) :
    let run := performAll (fun s => answered (perform depth s)) stops steps
    let spec := performAll (fun s => answered (lexical depth p s)) stops steps
    let after := (run.outcome st).2
    run.outcome st = spec.outcome st ∧ Blind spec ∧
      after.IsDated ∧ after.ambient = p.current ∧
      (∀ a task count, State.IsDated { after with ambient := a } →
        (perform depth (.resume task count)).outcome { after with ambient := a }
          = (((perform depth (.resume task count)).outcome after).1,
              { ((perform depth (.resume task count)).outcome after).2 with ambient := a })) ∧
      (∀ t, t.index < st.spawned.length → (after.task t).ambient = (st.task t).ambient) ∧
      (∀ name body,
        (after.spawn name body).task ⟨after.spawned.length⟩ = ⟨p.current, body⟩) ∧
      (∀ o, st.registry.Has o → after.registry.read o = st.registry.read o) ∧
      ∀ o, p.Gives (after.registry.read o).loadContext after ((contextOf o).outcome after) := by
  intro run spec after
  have hkeeps : ∀ s, Keeping (answered (perform depth s)) := fun s =>
    (keeping_perform depth s).answered
  have hafter : st.Keeps after := (keeping_performAll hkeeps stops steps st hdated).1
  have hambient : after.ambient = p.current := hafter.ambient.trans hcurrent
  refine ⟨?_, ?_, hafter.dated, hambient, ?_, ?_, ?_, ?_, ?_⟩
  · exact sameAt_performAll (fun s => (sameAt_perform depth p s).answered (keeping_perform depth s))
      hkeeps stops steps st hdated hcurrent
  · exact blind_performAll (fun s => (blind_lexical depth p s).answered) stops steps
  · intro a task count ha
    -- a task is run at its own position, wherever it is resumed
    have hposition : lexical depth p (.resume task count)
        = lexical depth ⟨[], a⟩ (.resume task count) := by
      cases depth <;> rfl
    rw [sameAt_perform depth ⟨[], a⟩ _ _ ha rfl, sameAt_perform depth p _ _ hafter.dated hambient,
      hposition]
    exact blind_lexical depth _ _ after a
  · exact fun t ht => hafter.task_ambient ht
  · intro name body
    rw [State.task, State.spawn, ← hambient]
    simp
  · exact fun o ho => hafter.read_eq ho
  · exact gives_contextOf hafter.dated hambient

/-- A task is started in a scope that is left by a failure, and is resumed outside of it. -/
def resumedOutside : List Step :=
  [.memoryContext "m" [] "m",
    .scope "m" [.spawn "t" [.ambientContext none], .fail (.text "left")] true,
    .ambientContext none, .resume "t" none]

/-- A session that has only begun stands at the outermost position; the scope that it enters fails
under a task that has not ended. -/
theorem reads_by_position_resumedOutside :
    (State.start 0 "/" ⟨[]⟩).IsDated ∧
      (State.start 0 "/" ⟨[]⟩).ambient = Position.current ⟨[], none⟩ ∧
      (performAll (fun s => answered (perform 9 s)) false resumedOutside).outcome
          (State.start 0 "/" ⟨[]⟩)
        = (performAll (fun s => answered (lexical 9 ⟨[], none⟩ s)) false resumedOutside).outcome
          (State.start 0 "/" ⟨[]⟩) :=
  have hdated := State.isDated_start 0 "/" ⟨[]⟩
  ⟨hdated, rfl, (reads_by_position 9 ⟨[], none⟩ false resumedOutside hdated rfl).1⟩

/-- The task reads the context of the scope that it was started in, and what comes behind the scope
reads a new one. -/
example : (answers (State.start 0 "/" ⟨[]⟩) resumedOutside).toOption.map List.tail
    = some [.scope [.done] (some (.failed (.value (.text "left")))), .loadContext ⟨"cwd", none⟩,
        .resumed [.loadContext ⟨"m", some "m"⟩] true] := by
  rfl

end Session

end ConfigSource
