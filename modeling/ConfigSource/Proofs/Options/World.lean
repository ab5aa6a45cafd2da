import ConfigSource.Proofs.Options.Copies
import Mathlib.Logic.Relation

/-!
# The includers that exist

A **world** is a registry together with the includers that were made so far. It is **sound** if the
identity of an includer tells it from all others: identities are handed out once, and what options
refer to was made. Comparing identities then is comparing instances.

Everything that happens keeps a world sound: making leaves, chains, load contexts and options, and
updating options with includers that exist (`ConfigSource.World.sound_of_step`), and loading
settings over them (`ConfigSource.World.Sound.load`). So every world that is reached from the empty
one is sound (`ConfigSource.World.sound_of_reached`).

A world is **reachable** if it is reached by steps alone (`ConfigSource.World.IsReachable`); with
loading, more worlds are **reached** (`ConfigSource.World.IsReached`).
-/

namespace ConfigSource

/-- A registry, and the includers that were made. -/
structure World where
  /-- The instances of options, and the next identity. -/
  registry : Registry
  /-- The includers that exist. -/
  includers : List Includer

namespace World

/-- Nothing exists. -/
def empty : World := ⟨.empty, []⟩

/-- The world after an update that gave this result; its includer may be new. -/
def afterUpdate (w : World) (p : OptionsId × Registry) : World :=
  ⟨p.2, (p.2.read p.1).includer.toList ++ w.includers⟩

/-- Something happens in a world. -/
inductive Step : World → World → Prop
  /-- A leaf is made. -/
  | leaf (w : World) (a : Leaf) :
    Step w ⟨w.registry.fresh.2, .leaf w.registry.fresh.1 a :: w.includers⟩
  /-- Two includers are chained. -/
  | chain (w : World) (primary secondary : Includer) :
    primary ∈ w.includers → secondary ∈ w.includers →
      Step w ⟨(w.registry.chain primary secondary).2,
        (w.registry.chain primary secondary).1 :: w.includers⟩
  /-- A load context is made, or something else that takes an identity. -/
  | other (w : World) : Step w ⟨w.registry.fresh.2, w.includers⟩
  /-- Options that say nothing are made. -/
  | defaults (w : World) : Step w ⟨w.registry.defaults.2, w.includers⟩
  /-- Options are updated; an includer that is given exists. -/
  | update (w : World) (now : Int) (o : OptionsId) (u : Update Includer LoadContext)
    (p : OptionsId × Registry) : (∀ i, u.argument = some i → i ∈ w.includers) →
      w.registry.update now o u = .ok p → Step w (w.afterUpdate p)

/-- What can be reached from the empty world by steps, that is, without loading settings. -/
def IsReachable : World → Prop := Relation.ReflTransGen Step empty

/-- What can be reached from the empty world, loading settings included. -/
inductive IsReached : World → Prop
  /-- Nothing exists yet. -/
  | empty : IsReached empty
  /-- Something happens. -/
  | step {w w' : World} : IsReached w → Step w w' → IsReached w'
  /-- Settings are loaded over options, or refused. -/
  | load {w : World} (now : Int) (logger : Log.Logger) (sources : List Source) (o : OptionsId) :
    IsReached w → IsReached ⟨(w.registry.load now logger sources o).1.2, w.includers⟩

/-- Steps alone are a way to reach a world. -/
theorem IsReachable.isReached {w : World} (h : w.IsReachable) : w.IsReached := by
  induction h with
  | refl => exact .empty
  | tail _ hstep ih => exact ih.step hstep

/-- **Identities tell includers apart**, and options refer to includers that exist. -/
structure Sound (w : World) : Prop where
  /-- Identities were handed out. -/
  handedOut : ∀ i ∈ w.includers, i.identity < w.registry.nextIdentity
  /-- An identity belongs to one includer. -/
  unique : ∀ i ∈ w.includers, ∀ j ∈ w.includers, i.identity = j.identity → i = j
  /-- The includers of options exist. -/
  exist : ∀ fields ∈ w.registry.instances, ∀ i, fields.includer = some i → i ∈ w.includers

/-! ### What keeps a world sound -/

theorem sound_empty : Sound empty where
  handedOut := fun _ h => absurd h List.not_mem_nil
  unique := fun _ h => absurd h List.not_mem_nil
  exist := fun _ h => absurd h List.not_mem_nil

namespace Sound

variable {r : Registry} {is : List Includer}

theorem of_read {w : World} (h : w.Sound) {o : OptionsId} {i : Includer}
    (hread : (w.registry.read o).includer = some i) : i ∈ w.includers := by
  unfold Registry.read at hread
  cases hfields : w.registry.instances[o.index]? with
  | none =>
    rw [hfields] at hread
    cases hread
  | some fields =>
    rw [hfields] at hread
    exact h.exist fields (List.mem_of_getElem? hfields) i hread

/-- An identity is handed out to nobody yet. -/
theorem fresh (h : Sound ⟨r, is⟩) : Sound ⟨r.fresh.2, is⟩ where
  handedOut := fun i hi => Nat.lt_succ_of_lt (h.handedOut i hi)
  unique := h.unique
  exist := h.exist

/-- A new includer has the identity that was handed out. -/
theorem cons_fresh (h : Sound ⟨r, is⟩) {i : Includer} (hi : i.identity = r.fresh.1) :
    Sound ⟨r.fresh.2, i :: is⟩ := by
  -- identities in use are below the next one, so the new includer has none of them
  have hold : ∀ j ∈ is, j.identity ≠ i.identity := fun j hj heq =>
    absurd (h.handedOut j hj) (by rw [heq, hi]; exact Nat.lt_irrefl _)
  refine ⟨?_, ?_, fun fields hfields j hj => List.mem_cons_of_mem _ (h.exist fields hfields j hj)⟩
  · intro j hj
    rcases List.mem_cons.mp hj with rfl | hj
    · rw [hi]
      exact Nat.lt_succ_self _
    · exact h.fresh.handedOut j hj
  · intro j hj k hk heq
    rcases List.mem_cons.mp hj with hj₁ | hj₁ <;> rcases List.mem_cons.mp hk with hk₁ | hk₁
    · rw [hj₁, hk₁]
    · exact absurd (hj₁ ▸ heq.symm) (hold k hk₁)
    · exact absurd (hk₁ ▸ heq) (hold j hj₁)
    · exact h.unique j hj₁ k hk₁ heq

/-- An includer that exists can be listed once more. -/
theorem cons_of_mem (h : Sound ⟨r, is⟩) {i : Includer} (hi : i ∈ is) : Sound ⟨r, i :: is⟩ := by
  have hmem : ∀ j ∈ i :: is, j ∈ is := fun j hj => (List.mem_cons.mp hj).elim (· ▸ hi) id
  exact ⟨fun j hj => h.handedOut j (hmem j hj),
    fun j hj k hk => h.unique j (hmem j hj) k (hmem k hk),
    fun fields hfields j hj => List.mem_cons_of_mem _ (h.exist fields hfields j hj)⟩

/-- The includer of new options exists. -/
theorem make (h : Sound ⟨r, is⟩) {fields : Options}
    (hfields : ∀ i, fields.includer = some i → i ∈ is) : Sound ⟨(r.make fields).2, is⟩ where
  handedOut := h.handedOut
  unique := h.unique
  exist := by
    intro made hmade
    rcases List.mem_append.mp hmade with hmade | hmade
    · exact h.exist made hmade
    · rw [List.mem_singleton.mp hmade]
      exact hfields

theorem keepsIncluder {p q : OptionsId × Registry} (h : Sound ⟨p.2, is⟩)
    (hkeeps : Registry.KeepsIncluder p q) : Sound ⟨q.2, is⟩ := by
  induction hkeeps with
  | refl => exact h
  | make _ hfields ih => exact ih.make fun i hi => ih.of_read (hfields ▸ hi)

theorem withIncluder (h : Sound ⟨r, is⟩) (o : OptionsId) {value : Option Includer}
    (hvalue : ∀ i, value = some i → i ∈ is) : Sound ⟨(r.withIncluder o value).2, is⟩ := by
  unfold Registry.withIncluder
  split
  · exact h
  · exact h.make hvalue

/-- **In a sound world a new includer is set as it is given**, whether or not an instance had to be
made for it. -/
theorem includer_withIncluder (h : Sound ⟨r, is⟩) (o : OptionsId) {value : Option Includer}
    (hvalue : ∀ i, value = some i → i ∈ is) :
    ((r.withIncluder o value).2.read (r.withIncluder o value).1).includer = value := by
  unfold Registry.withIncluder
  split
  -- the same identity means the same includer, so keeping it is setting it
  · next hsame =>
    cases hset : (r.read o).includer with
    | none =>
      rw [hset] at hsame
      exact (Option.map_eq_none_iff.mp hsame.symm).symm
    | some current =>
      rw [hset] at hsame
      obtain ⟨i, rfl, hi⟩ := Option.map_eq_some_iff.mp hsame.symm
      exact congrArg some (h.unique current (h.of_read hset) i (hvalue i rfl) hi.symm)
  · rw [Registry.read_make]

/-- A new chain is set as it is given, since nothing has its identity. -/
theorem withChain_eq (h : Sound ⟨r, is⟩) (o : OptionsId) (primary secondary : Includer) :
    r.withChain o primary secondary = (r.chain primary secondary).2.make
      { r.read o with includer := some (r.chain primary secondary).1 } := by
  refine if_neg fun hsame => ?_
  obtain ⟨current, hset, hidentity⟩ := Option.map_eq_some_iff.mp hsame
  have hlt := h.handedOut current (h.of_read hset)
  rw [hidentity] at hlt
  exact Nat.lt_irrefl _ hlt

theorem includer_withChain (h : Sound ⟨r, is⟩) (o : OptionsId) (primary secondary : Includer) :
    ((r.withChain o primary secondary).2.read (r.withChain o primary secondary).1).includer
      = some (r.chain primary secondary).1 := by
  rw [h.withChain_eq, Registry.read_make]

/-- **An update with an includer that exists keeps a world sound.** -/
theorem afterUpdate {w : World} (h : w.Sound) {now : Int} {o : OptionsId}
    {u : Update Includer LoadContext} {p : OptionsId × Registry}
    (hargument : ∀ i, u.argument = some i → i ∈ w.includers)
    (hp : w.registry.update now o u = .ok p) : (w.afterUpdate p).Sound := by
  rcases Registry.update_cases hp with ⟨hkeeps, -⟩ | ⟨rfl, -⟩ | ⟨primary, secondary, rfl, -, -⟩
  · have hsound : Sound ⟨p.2, w.includers⟩ := keepsIncluder (p := (o, w.registry)) h hkeeps
    unfold World.afterUpdate
    cases hset : (p.2.read p.1).includer with
    | none => exact hsound
    | some i => exact hsound.cons_of_mem (hsound.of_read hset)
  · have hsound := h.withIncluder o hargument
    rw [World.afterUpdate, h.includer_withIncluder o hargument]
    cases hset : u.argument with
    | none => rwa [hset] at hsound
    | some i =>
      rw [hset] at hsound
      exact hsound.cons_of_mem (hargument i hset)
  · have hchain : Sound ⟨_, (w.registry.chain primary secondary).1 :: w.includers⟩ :=
      h.cons_fresh (i := (w.registry.chain primary secondary).1) rfl
    rw [World.afterUpdate, h.includer_withChain, h.withChain_eq]
    refine hchain.make fun i hi => ?_
    rw [← Option.some.inj hi]
    exact List.mem_cons_self

/-- **Loading settings keeps a world sound**: it refers to no includer that does not exist. -/
theorem load {w : World} (h : w.Sound) (now : Int) (logger : Log.Logger)
    (sources : List Source) (o : OptionsId) :
    Sound ⟨(w.registry.load now logger sources o).1.2, w.includers⟩ := by
  rcases hread : readSettings now logger sources with ⟨outcome, lines⟩
  cases outcome with
  | error e => simpa [Registry.load, hread] using h
  | ok settings =>
    have hkeeps := Registry.keepsIncluder_applySettings w.registry o settings
    simpa [Registry.load, hread] using h.keepsIncluder (p := (o, w.registry)) hkeeps

end Sound

theorem sound_of_step {w w' : World} (h : w.Sound) (hstep : Step w w') : w'.Sound := by
  cases hstep with
  | leaf a => exact h.cons_fresh rfl
  | chain primary secondary _ _ => exact h.cons_fresh rfl
  | other => exact h.fresh
  | defaults => exact h.make fun _ hi => by cases hi
  | update now o u p hargument hp => exact h.afterUpdate hargument hp

/-- **Every world that can be reached is sound.** -/
theorem sound_of_reached {w : World} (h : w.IsReached) : w.Sound := by
  induction h with
  | empty => exact sound_empty
  | step _ hstep ih => exact sound_of_step ih hstep
  | load now logger sources o _ ih => exact ih.load now logger sources o

/-- **Instances stay as they are**, whatever happens. -/
theorem instances_prefix_of_step {w w' : World} (hstep : Step w w') :
    w.registry.instances <+: w'.registry.instances := by
  cases hstep with
  | leaf a => exact List.prefix_rfl
  | chain primary secondary _ _ => exact List.prefix_rfl
  | other => exact List.prefix_rfl
  | defaults => exact List.prefix_append _ _
  | update now o u p _ hp => exact (Registry.extends_update hp).1

end World

end ConfigSource
