import ConfigSource.Proofs.Options.Growth
import ConfigSource.Proofs.Table
import ConfigSource.Session.Perform

/-!
# What steps keep

The states of a session are **dated**: every load context that is held anywhere – set in options,
named, ambient, or the one that a task was started in – has an identity that was handed out. So a
context that is made with the next identity is none of them.

Whatever a step does, and whether it returns or fails, it **keeps** the ambient context, the
contexts that tasks were started in and the fields of all options, and it leaves a dated state
(`ConfigSource.Session.State.Keeps`).

* `ConfigSource.Session.Yields`: what is left by something that is run, and what it gives. It is put
  together along binds; what is given matters only where a load context is found, read or made.
* `ConfigSource.Session.keeping_performSimple`: the steps without steps inside.
* `ConfigSource.Session.keeping_perform`: all steps. A scope and a task put another ambient context
  into the state, and whatever is run there, the old one is put back.
-/

namespace ConfigSource

namespace Session

/-- What comes of running something: what it gives or throws, and the state that it leaves. -/
def Run.outcome {α : Type} (m : Run α) (st : State) : Except Thrown α × State := m.run.run st

namespace State

/-- A load context is held in a state. -/
inductive Holds (st : State) : LoadContext → Prop
  /-- It is set in options. -/
  | options {fields : Options} {c : LoadContext} : fields ∈ st.registry.instances →
      fields.loadContext = some c → Holds st c
  /-- It has a name. -/
  | named {name : String} {c : LoadContext} : (name, c) ∈ st.loads → Holds st c
  /-- A task was started in it. -/
  | task {task : Task} {c : LoadContext} : task ∈ st.spawned → task.ambient = some c → Holds st c
  /-- It is that of the innermost scope. -/
  | ambient {c : LoadContext} : st.ambient = some c → Holds st c

/-- The load contexts that are held have identities that were handed out. -/
def IsDated (st : State) : Prop := ∀ c, st.Holds c → c.identity < st.registry.nextIdentity

/-- **What is kept from one state to another**, which is dated. -/
structure Keeps (st st' : State) : Prop where
  /-- The ambient context is the same. -/
  ambient : st'.ambient = st.ambient
  /-- The working directory is at the same place. -/
  directory : st'.directory = st.directory
  /-- Tasks are only added, and belong to the contexts that they were started in. -/
  tasks : st.spawned.map Task.ambient <+: st'.spawned.map Task.ambient
  /-- Instances of options are only added. -/
  instances : st.registry.instances <+: st'.registry.instances
  /-- Identities are not taken back. -/
  identity : st.registry.nextIdentity ≤ st'.registry.nextIdentity
  /-- The contexts that are held have identities that were handed out. -/
  dated : st'.IsDated

theorem isDated_start (now : Int) (directory : String) (files : FileTree) :
    (start now directory files).IsDated := by
  intro c hc
  cases hc with
  | options hfields => exact absurd hfields List.not_mem_nil
  | named hname => exact absurd hname List.not_mem_nil
  | task htask => exact absurd htask List.not_mem_nil
  | ambient hambient => cases hambient

namespace Keeps

variable {st st' st'' : State}

theorem refl (h : st.IsDated) : st.Keeps st :=
  ⟨rfl, rfl, List.prefix_rfl, List.prefix_rfl, Nat.le_refl _, h⟩

theorem trans (h : st.Keeps st') (h' : st'.Keeps st'') : st.Keeps st'' where
  ambient := h'.ambient.trans h.ambient
  directory := h'.directory.trans h.directory
  tasks := h.tasks.trans h'.tasks
  instances := h.instances.trans h'.instances
  identity := Nat.le_trans h.identity h'.identity
  dated := h'.dated

/-- A task belongs to the context that it was started in. -/
theorem task_ambient (h : st.Keeps st') {t : TaskId} (ht : t.index < st.spawned.length) :
    (st'.task t).ambient = (st.task t).ambient := by
  have hread (st : State) :
      (st.task t).ambient = ((st.spawned.map Task.ambient)[t.index]?).join := by
    rw [task, List.getElem?_map]
    cases st.spawned[t.index]? <;> rfl
  obtain ⟨added, hadded⟩ := h.tasks
  rw [hread, hread, ← hadded, List.getElem?_append_left (by rwa [List.length_map])]

/-- The fields of options stay as they are. -/
theorem read_eq (h : st.Keeps st') {o : OptionsId} (ho : st.registry.Has o) :
    st'.registry.read o = st.registry.read o :=
  Registry.read_of_prefix h.instances ho

end Keeps

/-! ### Changes of a state -/

section Changes

variable {st st' : State} {r : Registry}

/-- What is not about contexts, options or tasks can change. -/
theorem keeps_of_eq (h : st.IsDated) (hambient : st'.ambient = st.ambient)
    (hdirectory : st'.directory = st.directory) (hregistry : st'.registry = st.registry)
    (hloads : st'.loads = st.loads) (hspawned : st'.spawned = st.spawned) : st.Keeps st' where
  ambient := hambient
  directory := hdirectory
  tasks := hspawned ▸ List.prefix_rfl
  instances := hregistry ▸ List.prefix_rfl
  identity := hregistry ▸ Nat.le_refl _
  dated := by
    intro c hc
    rw [hregistry]
    refine h c ?_
    cases hc with
    | options hfields hset => exact .options (hregistry ▸ hfields) hset
    | named hname => exact .named (hloads ▸ hname)
    | task htask hset => exact .task (hspawned ▸ htask) hset
    | ambient hset => exact .ambient (hambient ▸ hset)

theorem IsDated.contextsAre (h : st.IsDated) :
    st.registry.ContextsAre fun c => c.identity < st.registry.nextIdentity :=
  fun _ hfields c hset => h c (.options hfields hset)

/-- Another ambient context can be put there, if its identity was handed out. -/
theorem IsDated.withAmbient (h : st.IsDated) {c : Option LoadContext}
    (hc : ∀ d, c = some d → d.identity < st.registry.nextIdentity) :
    IsDated { st with ambient := c } := by
  intro d hd
  cases hd with
  | options hfields hset => exact h d (.options hfields hset)
  | named hname => exact h d (.named hname)
  | task htask hset => exact h d (.task htask hset)
  | ambient hset => exact hc d hset

/-- The context that a task was started in has an identity that was handed out. -/
theorem IsDated.task_identity (h : st.IsDated) (t : TaskId) {c : LoadContext}
    (hc : (st.task t).ambient = some c) : c.identity < st.registry.nextIdentity := by
  unfold State.task at hc
  cases htask : st.spawned[t.index]? with
  | none =>
    rw [htask] at hc
    cases hc
  | some task =>
    rw [htask] at hc
    exact h c (.task (List.mem_of_getElem? htask) hc)

theorem keeps_registry (h : st.IsDated)
    (hgrows : st.registry.Grows (fun c => c.identity < r.nextIdentity) r) :
    st.Keeps { st with registry := r } where
  ambient := rfl
  directory := rfl
  tasks := List.prefix_rfl
  instances := hgrows.instances
  identity := hgrows.identity
  dated := by
    have hlater : ∀ c : LoadContext, c.identity < st.registry.nextIdentity →
        c.identity < r.nextIdentity := fun c hc => Nat.lt_of_lt_of_le hc hgrows.identity
    intro c hc
    cases hc with
    | options hfields hset =>
      exact hgrows.contexts (h.contextsAre.mono hlater) _ hfields c hset
    | named hname => exact hlater c (h c (.named hname))
    | task htask hset => exact hlater c (h c (.task htask hset))
    | ambient hset => exact hlater c (h c (.ambient hset))

theorem keeps_loads (h : st.IsDated) (name : String) {c : LoadContext}
    (hc : c.identity < st.registry.nextIdentity) :
    st.Keeps { st with loads := st.loads.set name c } where
  ambient := rfl
  directory := rfl
  tasks := List.prefix_rfl
  instances := List.prefix_rfl
  identity := Nat.le_refl _
  dated := by
    intro d hd
    cases hd with
    | options hfields hset => exact h d (.options hfields hset)
    | named hname =>
      rcases Table.mem_set hname with hname | hnew
      · exact h d (.named hname)
      · obtain rfl : d = c := congrArg Prod.snd hnew
        exact hc
    | task htask hset => exact h d (.task htask hset)
    | ambient hset => exact h d (.ambient hset)

theorem keeps_spawn (h : st.IsDated) (name : String) (steps : List Step) :
    st.Keeps (st.spawn name steps) where
  ambient := rfl
  directory := rfl
  tasks := by
    rw [spawn, List.map_append]
    exact List.prefix_append _ _
  instances := List.prefix_rfl
  identity := Nat.le_refl _
  dated := by
    intro c hc
    cases hc with
    | options hfields hset => exact h c (.options hfields hset)
    | named hname => exact h c (.named hname)
    | task htask hset =>
      rcases List.mem_append.mp htask with htask | htask
      · exact h c (.task htask hset)
      · rw [List.mem_singleton.mp htask] at hset
        exact h c (.ambient hset)
    | ambient hset => exact h c (.ambient hset)

/-- Taking steps off a task does not move it to another context. -/
theorem map_ambient_leave (st : State) (t : TaskId) (left : List Step) :
    (st.leave t left).spawned.map Task.ambient = st.spawned.map Task.ambient := by
  rw [leave, List.map_set]
  refine List.ext_getElem? fun i => ?_
  rw [List.getElem?_set]
  split
  · next hi =>
    subst hi
    rw [List.getElem?_map, List.length_map, task]
    cases hleft : st.spawned[t.index]? with
    | none => rw [if_neg (Nat.not_lt.mpr (List.getElem?_eq_none_iff.mp hleft)), Option.map_none]
    | some task =>
      rw [if_pos (List.getElem?_eq_some_iff.mp hleft).1]
      rfl
  · rfl

theorem keeps_leave (h : st.IsDated) (t : TaskId) (left : List Step) :
    st.Keeps (st.leave t left) where
  ambient := rfl
  directory := rfl
  tasks := (map_ambient_leave st t left).symm ▸ List.prefix_rfl
  instances := List.prefix_rfl
  identity := Nat.le_refl _
  dated := by
    intro c hc
    cases hc with
    | options hfields hset => exact h c (.options hfields hset)
    | named hname => exact h c (.named hname)
    | task htask hset =>
      have hmem := List.mem_map_of_mem (f := Task.ambient) htask
      rw [map_ambient_leave] at hmem
      obtain ⟨task, htask, hsame⟩ := List.mem_map.mp hmem
      exact h c (.task htask (hsame.trans hset))
    | ambient hset => exact h c (.ambient hset)

end Changes

end State

/-! ### Running -/

section Running

variable {α β : Type} {st : State} {m : Run α} {f : α → Run β}
  {good : α → State → Prop} {good' : β → State → Prop}

theorem outcome_bind (m : Run α) (f : α → Run β) (st : State) :
    (m >>= f).outcome st = match m.outcome st with
      | (.ok a, st') => (f a).outcome st'
      | (.error e, st') => (.error e, st') := by
  simp only [Run.outcome, ExceptT.run_bind, StateT.run_bind]
  rcases h : m.run.run st with ⟨result, st'⟩
  cases result <;> rfl

theorem outcome_get_bind {g : State → Run β} : (get >>= g).outcome st = (g st).outcome st := rfl

theorem outcome_lift (m : Run α) (st : State) :
    Run.outcome (ExceptT.lift m.run) st = (.ok (m.outcome st).1, (m.outcome st).2) := rfl

/-- **What something that is run leaves and gives**: from a dated state it keeps what is kept, and,
if it gives anything, that is good in the state that it leaves. -/
def Yields (st : State) (m : Run α) (good : α → State → Prop) : Prop :=
  st.IsDated → st.Keeps (m.outcome st).2 ∧
    ∀ a, (m.outcome st).1 = .ok a → good a (m.outcome st).2

/-- It keeps what is kept, from any dated state. -/
abbrev Keeping (m : Run α) : Prop := ∀ st, Yields st m fun _ _ => True

theorem Yields.mono {good₂ : α → State → Prop} (h : Yields st m good)
    (hgood : ∀ a st', st'.IsDated → good a st' → good₂ a st') : Yields st m good₂ := fun hdated =>
  ⟨(h hdated).1, fun a ha => hgood a _ (h hdated).1.dated ((h hdated).2 a ha)⟩

theorem Yields.keeping (h : Yields st m good) : Yields st m fun _ _ => True :=
  h.mono fun _ _ _ _ => trivial

theorem Yields.of_dated {good : α → State → Prop} (h : st.IsDated → Yields st m good) :
    Yields st m good := fun hdated => h hdated hdated

theorem Yields.bind (hm : Yields st m good)
    (hf : ∀ a st', st.Keeps st' → good a st' → Yields st' (f a) good') :
    Yields st (m >>= f) good' := by
  intro hdated
  rw [outcome_bind]
  obtain ⟨hkeeps, hgood⟩ := hm hdated
  rcases h : m.outcome st with ⟨result, st'⟩
  rw [h] at hkeeps hgood
  cases result with
  | ok a =>
    have hrest := hf a st' hkeeps (hgood a rfl) hkeeps.dated
    exact ⟨hkeeps.trans hrest.1, hrest.2⟩
  | error e => exact ⟨hkeeps, fun a ha => by cases ha⟩

theorem Keeping.bind (hm : Keeping m) (hf : ∀ a, Keeping (f a)) : Keeping (m >>= f) :=
  fun st => (hm st).bind fun a st' _ _ => hf a st'

theorem yields_pure {a : α} (h : st.IsDated → good a st) : Yields st (pure a : Run α) good :=
  fun hdated => ⟨.refl hdated, fun b hb => by cases hb; exact h hdated⟩

theorem yields_throw (e : Thrown) : Yields st (throw e : Run α) good :=
  fun hdated => ⟨.refl hdated, fun a ha => by cases ha⟩

theorem keeping_pure (a : α) : Keeping (pure a : Run α) := fun _ => yields_pure fun _ => trivial

theorem keeping_throw (e : Thrown) : Keeping (throw e : Run α) := fun _ => yields_throw e

theorem yields_get_bind {g : State → Run β} (h : Yields st (g st) good') :
    Yields st (get >>= g) good' := h

theorem keeping_get_bind {g : State → Run β} (h : ∀ st, Yields st (g st) fun _ _ => True) :
    Keeping (get >>= g) := fun st => yields_get_bind (h st)

theorem yields_modify {g : State → State} (h : st.IsDated → st.Keeps (g st)) :
    Yields st (modify g : Run Unit) fun _ st' => st' = g st :=
  fun hdated => ⟨h hdated, fun _ _ => rfl⟩

theorem keeping_lift (h : Keeping m) : Keeping (ExceptT.lift m.run) := fun st hdated => by
  rw [outcome_lift]
  exact ⟨(h st hdated).1, fun _ _ => trivial⟩

end Running

/-! ### Load contexts that are read -/

theorem outcome_askDirectory (st : State) :
    askDirectory.outcome st =
      if st.knowledge = .lost then (.error (.system .missing), st)
      else (.ok st.directory, { st with knowledge := .known }) := by
  unfold askDirectory
  rw [outcome_get_bind]
  split
  · rfl
  · rfl

/-- A new context over the working directory, if that can be asked for. -/
def newContext (st : State) : Except Thrown LoadContext × State :=
  if st.knowledge = .lost then (.error (.system .missing), st)
  else (.ok (.workingDirectory st.registry.nextIdentity st.directory),
    { st with knowledge := .known })

/-- **The ambient context is read as it is now**, and is made anew if there is none. -/
theorem outcome_ambientContext (st : State) :
    ambientContext.outcome st = match st.ambient with
      | some c => (.ok c, st)
      | none => newContext st := by
  unfold ambientContext
  rw [outcome_get_bind]
  cases st.ambient with
  | some c => rfl
  | none =>
    by_cases hlost : st.knowledge = .lost
    · simp only [outcome_bind, outcome_askDirectory, newContext, if_pos hlost]
    · simp only [outcome_bind, outcome_askDirectory, newContext, if_neg hlost]
      rfl

/-- **The context of options is the one that is set, or else the ambient one.** -/
theorem outcome_contextOf (o : OptionsId) (st : State) :
    (contextOf o).outcome st = match (st.registry.read o).loadContext.or st.ambient with
      | some c => (.ok c, st)
      | none => newContext st := by
  unfold contextOf
  rw [outcome_get_bind]
  cases (st.registry.read o).loadContext with
  | some c => rfl
  | none => exact outcome_ambientContext st

theorem keeps_known {st : State} (h : st.IsDated) : st.Keeps { st with knowledge := .known } :=
  State.keeps_of_eq h rfl rfl rfl rfl rfl

theorem keeping_askDirectory : Keeping askDirectory := by
  intro st hdated
  rw [outcome_askDirectory]
  split
  · exact ⟨.refl hdated, fun _ _ => trivial⟩
  · exact ⟨keeps_known hdated, fun _ _ => trivial⟩

/-- The identity of the context was handed out, or is the next one. -/
theorem yields_ambientContext (st : State) :
    Yields st ambientContext fun c st' => c.identity ≤ st'.registry.nextIdentity := by
  intro hdated
  rw [outcome_ambientContext]
  cases hset : st.ambient with
  | some c =>
    refine ⟨.refl hdated, fun d hd => ?_⟩
    cases hd
    exact Nat.le_of_lt (hdated c (.ambient hset))
  | none =>
    dsimp only [newContext]
    split
    · exact ⟨.refl hdated, fun d hd => by cases hd⟩
    · refine ⟨keeps_known hdated, fun d hd => ?_⟩
      cases hd
      exact Nat.le_refl _

theorem yields_contextOf (o : OptionsId) (st : State) :
    Yields st (contextOf o) fun c st' => c.identity ≤ st'.registry.nextIdentity := by
  unfold contextOf
  refine yields_get_bind ?_
  cases hset : (st.registry.read o).loadContext with
  | some c => exact yields_pure fun hdated => Nat.le_of_lt (hdated.contextsAre.of_read o hset)
  | none => exact yields_ambientContext st

theorem keeping_view (o : OptionsId) : Keeping (view o) := fun st =>
  (yields_contextOf o st).bind fun _ _ _ _ => yields_get_bind (yields_pure fun _ => trivial)

/-! ### Names -/

section Names

variable {α : Type}

theorem yields_find (title : String) (table : State → Table α) (name : String) (st : State) :
    Yields st (find title table name) fun a st' => (table st').get? name = some a := by
  unfold find
  refine yields_get_bind ?_
  split
  · exact yields_pure fun _ => ‹_›
  · exact yields_throw _

theorem keeping_find (title : String) (table : State → Table α) (name : String) :
    Keeping (find title table name) := fun st => (yields_find title table name st).keeping

theorem yields_findLoad (name : String) (st : State) :
    Yields st (findLoad name) fun c st' => c.identity < st'.registry.nextIdentity :=
  (yields_find _ _ name st).mono fun _ _ hdated hget => hdated _ (.named (Table.mem_of_get? hget))

theorem keeping_findIfNamed {look : String → Run α} (h : ∀ name, Keeping (look name))
    (name : Option String) : Keeping (findIfNamed look name) := by
  cases name with
  | none => exact keeping_pure none
  | some name => exact (h name).bind fun a => keeping_pure (some a)

theorem keeping_bindOptions (name : Option String) (o : OptionsId) : Keeping (bindOptions name o) :=
  fun _ => (yields_modify fun h => State.keeps_of_eq h rfl rfl rfl rfl rfl).keeping

theorem keeping_bindIncluder (name : Option String) (i : Includer) :
    Keeping (bindIncluder name i) :=
  fun _ => (yields_modify fun h => State.keeps_of_eq h rfl rfl rfl rfl rfl).keeping

theorem yields_bindLoad {st : State} (name : Option String) {c : LoadContext}
    (hc : c.identity < st.registry.nextIdentity) : Yields st (bindLoad name c) fun _ _ => True := by
  cases name with
  | none => exact (yields_modify State.Keeps.refl).keeping
  | some name => exact (yields_modify fun h => State.keeps_loads h name hc).keeping

end Names

/-! ### Registries -/

theorem yields_keepRegistry {st : State} {r : Registry}
    (hgrows : st.registry.Grows (fun c => c.identity < r.nextIdentity) r) :
    Yields st (keepRegistry r) fun _ st' => st' = { st with registry := r } :=
  yields_modify fun h => State.keeps_registry h hgrows

/-- A registry that was made from that of the state is taken over, and something is run then. -/
theorem yields_keepRegistry_bind {α : Type} {st : State} {r : Registry} {k : Unit → Run α}
    (hgrows : st.registry.Grows (fun c => c.identity < r.nextIdentity) r) (hk : Keeping (k ())) :
    Yields st (keepRegistry r >>= k) fun _ _ => True :=
  (yields_keepRegistry hgrows).bind fun _ st' _ _ => hk st'

/-- What is handed out is the next identity. -/
theorem yields_freshIdentity (st : State) :
    Yields st freshIdentity fun identity st' =>
      identity = st.registry.nextIdentity ∧
        st'.registry.nextIdentity = st.registry.nextIdentity + 1 := by
  unfold freshIdentity
  refine yields_get_bind ((yields_keepRegistry (Registry.grows_fresh _ _)).bind ?_)
  rintro - st' - rfl
  exact yields_pure fun _ => ⟨rfl, rfl⟩

theorem keeping_showOptions (name : Option String) (o : OptionsId) (same : Option Bool) :
    Keeping (showOptions name o same) :=
  (keeping_bindOptions name o).bind fun _ => (keeping_view o).bind fun _ => keeping_pure _

theorem keeping_showIncluder (name : Option String) (i : Includer) :
    Keeping (showIncluder name i) :=
  (keeping_bindIncluder name i).bind fun _ => keeping_get_bind fun _ => yields_pure fun _ => trivial

theorem yields_showLoad {st : State} (name : Option String) {c : LoadContext}
    (hc : c.identity < st.registry.nextIdentity) : Yields st (showLoad name c) fun _ _ => True :=
  (yields_bindLoad name hc).bind fun _ _ _ _ => yields_get_bind (yields_pure fun _ => trivial)

/-- A context that was read is shown once an identity was handed out for it. -/
theorem yields_showRead {st : State} (name : Option String) {c : LoadContext}
    (hc : c.identity ≤ st.registry.nextIdentity) :
    Yields st (freshIdentity >>= fun _ => showLoad name c) fun _ _ => True :=
  (yields_freshIdentity st).bind fun _ _ _ hnext =>
    yields_showLoad name (hnext.2 ▸ Nat.lt_succ_of_le hc)

/-! ### Steps -/

theorem keeping_shown (e : Thrown) : Keeping (shown e) := by
  unfold shown
  split
  · exact keeping_pure e
  · exact keeping_throw _

/-- The load context that an update is given has an identity that was handed out. -/
theorem yields_named (change : Update String String) (st : State) :
    Yields st (named change) fun u st' =>
      ∀ c, u = .loadContext (some c) → c.identity < st'.registry.nextIdentity := by
  cases change with
  | dialect | originDescription | fallbackOriginDescription | allowMissing | clear =>
    exact yields_pure fun _ c hc => by cases hc
  | includer value | prepend value | append value =>
    exact (keeping_findIfNamed (keeping_find _ _) value st).bind fun _ _ _ _ =>
      yields_pure fun _ c hc => by cases hc
  | loadContext value =>
    cases value with
    | none => exact yields_pure fun _ c hc => by cases hc
    | some name =>
      have hfound : Yields st (findIfNamed findLoad (some name)) fun found st' =>
          ∀ c ∈ found, c.identity < st'.registry.nextIdentity := by
        refine (yields_findLoad name st).bind fun c _ _ hc => yields_pure fun _ d hd => ?_
        cases hd
        exact hc
      refine hfound.bind fun found _ _ hold => yields_pure fun _ c hc => ?_
      cases hc
      exact hold c rfl

theorem keeping_update (on : String) (change : Update String String) (as : Option String) :
    Keeping (update on change as) := by
  refine (keeping_find _ _ on).bind fun o st => (yields_named change st).bind fun u st' _ hu => ?_
  refine yields_get_bind ?_
  split
  · next result r hr =>
    refine yields_keepRegistry_bind (Registry.grows_update (fun c hc => ?_) hr)
      (keeping_showOptions as result _)
    have hgrows : st'.registry.Grows (fun _ => True) r := Registry.grows_update (fun _ _ => trivial) hr
    exact Nat.lt_of_lt_of_le (hu c hc) hgrows.identity
  · exact yields_throw _

theorem keeping_baseOf (base : Option String) : Keeping (baseOf base) := by
  cases base with
  | none =>
    refine keeping_get_bind fun st => yields_keepRegistry_bind ?_ (keeping_pure _)
    exact Registry.grows_make fun _ c hc => by cases hc
  | some name => exact keeping_find _ _ name

theorem keeping_loggerOf (level : Option String) : Keeping (loggerOf level) := by
  cases level with
  | none => exact keeping_pure _
  | some name =>
    refine keeping_get_bind fun st => ?_
    split
    · exact yields_pure fun _ => trivial
    · exact yields_throw _

theorem keeping_load (sources : List Source) (base level : Option String) (as : Option String) :
    Keeping (load sources base level as) := by
  refine (keeping_baseOf base).bind fun o => (keeping_loggerOf level).bind fun logger => ?_
  refine keeping_get_bind fun st => yields_keepRegistry_bind ?_ ?_
  · exact Registry.grows_load _ _ o _ logger sources
  · split
    · exact (keeping_bindOptions as _).bind fun _ => (keeping_view _).bind fun _ => keeping_pure _
    · exact (keeping_shown _).bind fun _ => keeping_pure _

theorem keeping_ask (includer : Option Includer) (context : IncludeContext) (what : String) :
    Keeping (ask includer context what) := by
  refine keeping_get_bind fun st => ?_
  dsimp only
  split
  -- the load context was read, in the state in which the includer is asked
  · have hset : Yields st (set ((contextOf context.included).outcome st).2) fun _ _ => True :=
      fun hdated => ⟨(yields_contextOf context.included st hdated).1, fun _ _ => trivial⟩
    refine hset.bind fun _ st' _ _ => ?_
    split
    · exact yields_pure fun _ => trivial
    · exact ((keeping_shown _).bind fun _ => keeping_pure _) st'
  · split
    · exact yields_pure fun _ => trivial
    · exact ((keeping_shown _).bind fun _ => keeping_pure _) st

theorem keeping_located (place : Located) : Keeping place.context := by
  cases place with
  | inOptions name =>
    exact (keeping_find _ _ name).bind fun o st => (yields_contextOf o st).keeping
  | inContext name => exact keeping_find _ _ name
  | inAmbient => exact fun st => (yields_ambientContext st).keeping

theorem keeping_settled {α : Type} (result : Except Thrown α) : Keeping (settled result) := by
  cases result with
  | ok a => exact keeping_pure a
  | error e => exact keeping_throw e

theorem keeping_changeFiles (change : FileTree.Change Unit) : Keeping (changeFiles change) := by
  refine keeping_get_bind fun st =>
    (yields_modify fun h => State.keeps_of_eq h rfl rfl rfl rfl rfl).keeping.bind fun _ st' _ _ => ?_
  split
  · exact yields_pure fun _ => trivial
  · exact yields_throw _

/-- **Every step without steps inside keeps what is kept.** -/
theorem keeping_performSimple (s : Step) : Keeping (performSimple s) := by
  cases s with
  | defaults as =>
    refine keeping_get_bind fun st => yields_keepRegistry_bind ?_ (keeping_showOptions _ _ _)
    exact Registry.grows_make fun _ c hc => by cases hc
  | update on change as => exact keeping_update on change as
  | describe on =>
    exact (keeping_find _ _ on).bind fun o => (keeping_view o).bind fun _ => keeping_pure _
  | load sources base level as => exact keeping_load sources base level as
  | includer leaf as =>
    exact fun st => (yields_freshIdentity st).bind fun _ st' _ _ => keeping_showIncluder _ _ st'
  | chain primary secondary as =>
    refine (keeping_find _ _ primary).bind fun p => (keeping_find _ _ secondary).bind fun q => ?_
    exact keeping_get_bind fun st =>
      yields_keepRegistry_bind (Registry.grows_fresh _ _) (keeping_showIncluder _ _)
  | takeIncluder on as =>
    refine (keeping_find _ _ on).bind fun o => keeping_get_bind fun st => ?_
    split
    · exact keeping_showIncluder as _ st
    · exact yields_pure fun _ => trivial
  | includeContext options location as =>
    refine (keeping_find _ _ options).bind fun o => keeping_get_bind fun st =>
      yields_keepRegistry_bind (Registry.grows_clearForInclude _ _ o) ?_
    refine Keeping.bind (fun st' => (yields_modify fun h => ?_).keeping) fun _ => keeping_pure _
    exact State.keeps_of_eq h rfl rfl rfl rfl rfl
  | relative on name => exact (keeping_find _ _ on).bind fun _ => keeping_pure _
  | includedOptions on as =>
    exact (keeping_find _ _ on).bind fun c => (keeping_bindOptions as _).bind fun _ =>
      (keeping_view _).bind fun _ => keeping_pure _
  | ask on context what =>
    exact (keeping_find _ _ on).bind fun i => (keeping_find _ _ context).bind fun c =>
      keeping_ask (some i) c what
  | resolve options context what =>
    exact (keeping_find _ _ options).bind fun o => (keeping_find _ _ context).bind fun c =>
      keeping_get_bind fun st => keeping_ask _ c what st
  | memoryContext name locations as =>
    refine fun st => (yields_freshIdentity st).bind fun identity st' _ hnext => ?_
    exact yields_showLoad _ (hnext.1 ▸ hnext.2 ▸ Nat.lt_succ_self _)
  | rootsContext name directories start as =>
    have hmake : Keeping (do
        let identity ← freshIdentity
        let directory := (← get).directory
        showLoad (some as)
          (.ofRoots identity name (Path.resolve directory (start.getD "")) directories)) := by
      refine fun st => (yields_freshIdentity st).bind fun identity st' _ hnext =>
        yields_get_bind ?_
      exact yields_showLoad _ (hnext.1 ▸ hnext.2 ▸ Nat.lt_succ_self _)
    unfold performSimple
    dsimp only
    split
    · exact keeping_askDirectory.bind fun _ => hmake
    · exact hmake
  | contextOf on as =>
    exact (keeping_find _ _ on).bind fun o st => (yields_contextOf o st).bind fun c st' _ hc =>
      yields_showRead as hc
  | ambientContext as =>
    exact fun st => (yields_ambientContext st).bind fun c st' _ hc => yields_showRead as hc
  | locate place resource =>
    exact (keeping_located place).bind fun c => keeping_get_bind fun st =>
      ((keeping_settled _).bind fun _ => keeping_pure _) st
  | write files => exact (keeping_changeFiles _).bind fun _ => keeping_pure _
  | remove path => exact (keeping_changeFiles _).bind fun _ => keeping_pure _
  | fail error => exact keeping_throw _
  | spawn as steps =>
    exact Keeping.bind (fun st => (yields_modify fun h => State.keeps_spawn h as steps).keeping)
      fun _ => keeping_pure _
  | scope context steps stops => exact keeping_pure _
  | resume task count => exact keeping_pure _

/-! ### Steps with steps inside -/

/-- Runs something with another ambient context, and puts the old one back, also if it fails. -/
def inContext {α : Type} (ambient : Option LoadContext) (m : Run α) : Run α :=
  ExceptT.mk (within ambient m.run)

section Inside

variable {α : Type} {st : State} {m : Run α} {one : Step → Run Answer}

theorem outcome_inContext (c : Option LoadContext) (m : Run α) (st : State) :
    (inContext c m).outcome st
      = ((m.outcome { st with ambient := c }).1,
          { (m.outcome { st with ambient := c }).2 with ambient := st.ambient }) := rfl

/-- What is run with another ambient context keeps the one that was put back. -/
theorem yields_inContext {c : Option LoadContext} (hm : Keeping m)
    (hc : ∀ d, c = some d → d.identity < st.registry.nextIdentity) :
    Yields st (inContext c m) fun _ _ => True := by
  intro hdated
  have hinside := (hm _ (hdated.withAmbient hc)).1
  refine ⟨⟨rfl, hinside.directory, hinside.tasks, hinside.instances, hinside.identity, ?_⟩,
    fun _ _ => trivial⟩
  refine hinside.dated.withAmbient fun d hd => ?_
  exact Nat.lt_of_lt_of_le (hdated d (.ambient hd)) hinside.identity

theorem Keeping.answered {step : Run Answer} (h : Keeping step) : Keeping (answered step) := by
  refine (keeping_lift h).bind fun result => ?_
  cases result with
  | ok a => exact keeping_pure a
  | error e => exact (keeping_shown e).bind fun _ => keeping_pure _

theorem keeping_performAll (h : ∀ s, Keeping (one s)) (stops : Bool) (steps : List Step) :
    Keeping (performAll one stops steps) := by
  induction steps with
  | nil => exact keeping_pure _
  | cons s rest ih =>
    refine (h s).bind fun a => ?_
    split
    · exact keeping_pure _
    · exact ih.bind fun _ => keeping_pure _

theorem keeping_goOn (h : ∀ s, Keeping (one s)) (t : TaskId) (count : Nat) :
    Keeping (goOn one t count) := by
  induction count with
  | zero => exact keeping_pure _
  | succ count ih =>
    refine keeping_get_bind fun st => Yields.of_dated fun hdated => ?_
    dsimp only
    split
    · next s rest _ =>
      refine Yields.bind (yields_modify fun h => State.keeps_leave h t rest) ?_
      rintro - st' - rfl
      refine Yields.bind (m := inContext (st.task t).ambient (one s))
        (yields_inContext (h s) fun d hd => hdated.task_identity t hd) fun a st' _ _ => ?_
      exact (ih.bind fun _ => keeping_pure _) st'
    · exact yields_pure fun _ => trivial

/-- **Every step keeps what is kept**, however it ends. -/
theorem keeping_perform (depth : Nat) (s : Step) : Keeping (perform depth s) := by
  induction depth generalizing s with
  | zero => exact keeping_throw _
  | succ depth ih =>
    cases s with
    | scope context steps stops =>
      refine fun st => (yields_findLoad context st).bind fun c st' _ hc => ?_
      refine Yields.bind (m := inContext (some c) _) (yields_inContext
        (keeping_performAll (fun s => (ih s).answered) stops steps) ?_) fun _ _ _ _ => ?_
      · rintro d hd
        cases hd
        exact hc
      · exact yields_pure fun _ => trivial
    | resume task count =>
      refine (keeping_find _ _ task).bind fun t => keeping_get_bind fun st => ?_
      refine ((keeping_goOn (fun s => (ih s).answered) t _).bind fun _ => ?_) st
      exact keeping_get_bind fun _ => yields_pure fun _ => trivial
    | _ => exact keeping_performSimple _

end Inside

end Session

end ConfigSource
