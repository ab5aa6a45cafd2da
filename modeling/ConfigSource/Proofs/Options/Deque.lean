import ConfigSource.Proofs.Include.Chain
import ConfigSource.Proofs.Options.World

/-!
# Includers as a queue with two ends

Following options through a run of updates, the leaves of their includer are those of a queue: an
includer can be put in front, or behind, or in place of all that is there. The run may be
interleaved with whatever else happens in the world (`ConfigSource.World.Follows`), and the updates
may be refused or be about other fields.

The main result is `ConfigSource.World.leaves_of_follows`: the list of leaves is the fold of
`ConfigSource.Update.onLeaves` over the run, and resolving a directive asks the leaves of that list
one after the other. It rests on what one update does
(`ConfigSource.World.leaves_of_update`), which holds in every world that can be reached.
-/

namespace ConfigSource

/-! ### Resolving -/

/-- Where rules hand a directive on, if these leaves are being asked. -/
def Includer.handOn (s : Surroundings) (leaves : List Leaf) : String → Asking (Option Reply) :=
  Includer.resolveWithin s
    ((leaves.flatMap Includer.redirections).length + Includer.redirectCount s.includer) s.includer

/-- **Resolving is asking the leaves**, from left to right; without any, everything is deferred. -/
theorem Includer.resolve_eq_askAll (s : Surroundings) (includer : Option Includer)
    (what : String) :
    Includer.resolve s includer what = Chain.askAll
      (fun leaf => leaf.answer s (Includer.handOn s (leavesOf includer)) what)
      (leavesOf includer) := by
  cases includer with
  | none => rfl
  | some includer => exact Chain.ask_eq_askAll _ includer

namespace World

/-! ### One update -/

/-- **What one update makes of the leaves** of options. -/
theorem leaves_of_update {w : World} (hw : w.Sound) {now : Int} {o : OptionsId}
    {u : Update Includer LoadContext} {p : OptionsId × Registry}
    (hargument : ∀ i, u.argument = some i → i ∈ w.includers)
    (hp : w.registry.update now o u = .ok p) :
    leavesOf (p.2.read p.1).includer
      = u.onLeaves (w.registry.read o).includer (leavesOf (w.registry.read o).includer) := by
  rcases Registry.update_cases hp with ⟨hkeeps, hleaves⟩ | ⟨rfl, hleaves⟩ |
    ⟨primary, secondary, rfl, -, hleaves⟩
  · rw [hleaves, hkeeps.includer_eq]
  · rw [hleaves, hw.includer_withIncluder o hargument]
  · rw [hleaves, hw.includer_withChain]
    rfl

/-! ### Runs -/

/-- An update that was called, and the includer that was set then. -/
structure Turn where
  /-- The update. -/
  update : Update Includer LoadContext
  /-- The includer that was set. -/
  current : Option Includer

/-- Options are followed through updates, from one world to another. Each update is called on the
options that the last one gave; a refused one gives none. -/
inductive Follows : World → OptionsId → List Turn → World → OptionsId → Prop
  /-- The end. -/
  | done (w : World) (o : OptionsId) : Follows w o [] w o
  /-- Something else happens. -/
  | meanwhile {w w₁ w' : World} {o o' : OptionsId} {turns : List Turn} : Step w w₁ →
      Follows w₁ o turns w' o' → Follows w o turns w' o'
  /-- The options are updated; an includer that is given exists. -/
  | update {w w' : World} {o o' : OptionsId} {turns : List Turn} (now : Int)
    (u : Update Includer LoadContext) {p : OptionsId × Registry} :
      (∀ i, u.argument = some i → i ∈ w.includers) → w.registry.update now o u = .ok p →
      Follows (w.afterUpdate p) p.1 turns w' o' →
      Follows w o (⟨u, (w.registry.read o).includer⟩ :: turns) w' o'
  /-- An update is refused. -/
  | refused {w w' : World} {o o' : OptionsId} {turns : List Turn} (now : Int)
    (u : Update Includer LoadContext) {e : Value} : w.registry.update now o u = .error e →
      Follows w o turns w' o' → Follows w o (⟨u, (w.registry.read o).includer⟩ :: turns) w' o'

/-- What a run of updates makes of a list of leaves. -/
def queue (turns : List Turn) (leaves : List Leaf) : List Leaf :=
  turns.foldl (fun leaves turn => turn.update.onLeaves turn.current leaves) leaves

theorem leavesOf_of_follows {w w' : World} {o o' : OptionsId} {turns : List Turn} (hw : w.Sound)
    (ho : w.registry.Has o) (h : Follows w o turns w' o') :
    leavesOf (w'.registry.read o').includer
      = queue turns (leavesOf (w.registry.read o).includer) := by
  induction h with
  | done => rfl
  | meanwhile hstep _ ih =>
    -- instances are only added, so the options are read as before
    have hprefix := instances_prefix_of_step hstep
    rw [ih (sound_of_step hw hstep) (Nat.lt_of_lt_of_le ho hprefix.length_le),
      Registry.read_of_prefix hprefix ho]
  | update now u hargument hp _ ih =>
    rw [ih (hw.afterUpdate hargument hp) ((Registry.extends_update hp).2 ho), queue, queue,
      List.foldl_cons]
    exact congrArg (queue _) (leaves_of_update hw hargument hp)
  | refused now u he _ ih =>
    rw [ih hw ho, queue, queue, List.foldl_cons]
    rcases Registry.update_refused he with rfl | rfl
    · rfl
    · rfl

/-- An includer that was given is the one that was set exactly if the identities agree. -/
theorem current_eq_iff_of_follows {w w' : World} {o o' : OptionsId} {turns : List Turn}
    (hw : w.Sound) (h : Follows w o turns w' o') :
    ∀ turn ∈ turns, ∀ added, turn.update.argument = some added →
      (turn.current.map Chain.identity = some added.identity ↔ turn.current = some added) := by
  induction h with
  | done => exact fun turn hturn => absurd hturn List.not_mem_nil
  | meanwhile hstep _ ih => exact ih (sound_of_step hw hstep)
  | @update w w' o o' turns now u p hargument hp _ ih =>
    refine List.forall_mem_cons.mpr ⟨fun added hadded => ⟨fun hsame => ?_, fun hsame => ?_⟩,
      ih (hw.afterUpdate hargument hp)⟩
    · obtain ⟨current, hset, hidentity⟩ := Option.map_eq_some_iff.mp hsame
      rw [hset, hw.unique current (hw.of_read hset) added (hargument added hadded) hidentity]
    · rw [hsame, Option.map_some]
  | refused now u he _ ih =>
    refine List.forall_mem_cons.mpr ⟨fun added hadded => ?_, ih hw⟩
    rcases Registry.update_refused he with rfl | rfl
    · cases hadded
    · cases hadded

/-- **The includer of options is a queue with two ends.** After any run of updates its leaves are
those of the queue: `withIncluder` replaces it, a prepended includer goes in front of it and an
appended one behind it, and nothing is done for the very includer that is set, for a refused update
and for updates of other fields. A directive is resolved by the leaves in this order, up to the
first that does not defer; without leaves it is deferred. -/
theorem leaves_of_follows {w w' : World} {o o' : OptionsId} {turns : List Turn}
    (hw : w.IsReachable) (ho : w.registry.Has o) (h : Follows w o turns w' o') :
    let includer := (w'.registry.read o').includer
    let leaves := queue turns (leavesOf (w.registry.read o).includer)
    leavesOf includer = leaves ∧
    (∀ turn ∈ turns, ∀ added, turn.update.argument = some added →
      (turn.current.map Chain.identity = some added.identity ↔ turn.current = some added)) ∧
    ∀ s what t,
      let answer (leaf : Leaf) := leaf.answer s (Includer.handOn s leaves) what
      let resolved := (Includer.resolve s includer what).run t
      ((∃ before leaf after t₁, leaves = before ++ leaf :: after ∧
          Chain.DefersThrough answer t before t₁ ∧ ((answer leaf).run t₁).1 ≠ .ok none ∧
          resolved = (answer leaf).run t₁) ∨
        ∃ t₁, Chain.DefersThrough answer t leaves t₁ ∧ resolved = (.ok none, t₁)) ∧
      (leaves = [] → resolved = (.ok none, t)) := by
  intro includer leaves
  have hsound := sound_of_reached hw.isReached
  have hleaves : leavesOf includer = leaves := leavesOf_of_follows hsound ho h
  refine ⟨hleaves, current_eq_iff_of_follows hsound h, fun s what t => ?_⟩
  intro answer resolved
  have hresolved : resolved = (Chain.askAll answer leaves).run t := by
    have hall := Includer.resolve_eq_askAll s includer what
    rw [hleaves] at hall
    exact congrArg (fun asking : Asking (Option Reply) => asking.run t) hall
  refine ⟨?_, fun hnil => ?_⟩
  · rw [hresolved]
    exact Chain.run_askAll_cases answer leaves t
  · rw [hresolved, hnil]
    rfl

/-- A world of two leaves, and options that say nothing. -/
def twoLeaves : World :=
  ⟨⟨[.defaults], 2⟩, [.leaf 1 (.rules "b" []), .leaf 0 (.rules "a" [])]⟩

theorem isReachable_twoLeaves : twoLeaves.IsReachable :=
  ((Relation.ReflTransGen.refl.tail (.leaf _ (.rules "a" []))).tail
    (.leaf _ (.rules "b" []))).tail (.defaults _)

theorem has_twoLeaves : twoLeaves.registry.Has ⟨0⟩ := Nat.zero_lt_one

/-- One leaf is put behind nothing and the other in front of it; in between, a call without an
includer is refused. -/
theorem leaves_of_follows_twoLeaves :
    twoLeaves.IsReachable ∧ twoLeaves.registry.Has ⟨0⟩ ∧
      ∃ w' o', Follows twoLeaves ⟨0⟩
        [⟨.append (some (.leaf 1 (.rules "b" []))), none⟩,
          ⟨.prepend none, some (.leaf 1 (.rules "b" []))⟩,
          ⟨.prepend (some (.leaf 0 (.rules "a" []))), some (.leaf 1 (.rules "b" []))⟩] w' o' ∧
        leavesOf (w'.registry.read o').includer = [.rules "a" [], .rules "b" []] := by
  have hfollows : Follows twoLeaves ⟨0⟩ _ _ _ :=
    .update 0 (.append (some (.leaf 1 (.rules "b" []))))
      (fun i hi => Option.some.inj hi ▸ List.mem_cons_self) rfl
      (.refused 0 (.prepend none) rfl
        (.update 0 (.prepend (some (.leaf 0 (.rules "a" []))))
          (fun i hi => Option.some.inj hi ▸ by simp [afterUpdate, twoLeaves]) rfl (.done _ _)))
  exact ⟨isReachable_twoLeaves, has_twoLeaves, _, _, hfollows,
    (leaves_of_follows isReachable_twoLeaves has_twoLeaves hfollows).1⟩

end World

end ConfigSource
