import ConfigSource.Include
import ConfigSource.Proofs.Options.Copies
import ConfigSource.Proofs.Options.Deque

/-!
# The options of nested sources

What a source includes is read with the **cleared** options of that source, what is included there
with the cleared options of those, and so on. Clearing does something once only: options that were
cleared are given back as they are (`ConfigSource.Registry.clearForInclude_of_isCleared`). So below
the root all sources share one instance, however deep they are nested and whatever else is done
meanwhile (`ConfigSource.Registry.included_of_nests`). Includer and load context come from the root,
and nothing else does.

A nesting is a run (`ConfigSource.Registry.Nests`): each include context is made over the options
that the one before hands out, and between two of them instances may be added.
-/

namespace ConfigSource

/-! ### Cleared options -/

/-- Options that have nothing to be cleared: dialect and description are found anew, and a missing
source is tolerated. -/
structure Options.IsCleared (fields : Options) : Prop where
  /-- No dialect is set. -/
  dialect : fields.dialect = none
  /-- No origin description is set. -/
  originDescription : fields.originDescription = none
  /-- A missing source is tolerated. -/
  allowMissing : fields.allowMissing = true

/-- The options that have the includer and the load context of others, and say nothing else. -/
def Options.cleared (fields : Options) : Options :=
  { Options.defaults with includer := fields.includer, loadContext := fields.loadContext }

theorem Options.isCleared_cleared (fields : Options) : fields.cleared.IsCleared := ⟨rfl, rfl, rfl⟩

namespace Registry

variable {r r' : Registry} {o : OptionsId}

/-- What clearing leaves in the fields. -/
theorem read_clearForInclude_eq_cleared (r : Registry) (o : OptionsId) :
    (r.clearForInclude o).2.read (r.clearForInclude o).1 = (r.read o).cleared :=
  read_clearForInclude r o

/-- **Options that were cleared are given back as they are**, and nothing is made. -/
theorem clearForInclude_of_isCleared (h : (r.read o).IsCleared) :
    r.clearForInclude o = (o, r) := by
  have hdialect : r.withDialect o none = (o, r) := if_pos h.dialect
  have horigin : r.withOriginDescription o none = (o, r) := if_pos h.originDescription
  have hmissing : r.withAllowMissing o true = (o, r) := if_pos h.allowMissing
  simp only [clearForInclude, hdialect, horigin, hmissing]

/-- **Clearing gives the instance itself exactly if it has nothing to be cleared.** -/
theorem clearForInclude_eq_iff (ho : r.Has o) :
    (r.clearForInclude o).1 = o ↔ (r.read o).IsCleared := by
  have hcopies := copies_clearForInclude ho
  rw [hcopies.eq_iff ho, read_clearForInclude_eq_cleared]
  constructor
  · intro hsame
    exact ⟨(hsame .dialect).symm, (hsame .originDescription).symm, (hsame .allowMissing).symm⟩
  · intro h f
    cases f with
    | dialect => exact h.dialect.symm
    | originDescription => exact h.originDescription.symm
    | allowMissing => exact h.allowMissing.symm
    | includer => rfl
    | loadContext => rfl

/-! ### Nesting -/

/-- Sources that are nested in one another, by their include contexts from the outermost one down:
each is over the options that the one before hands out. Instances may be added at any time. -/
inductive Nests : Registry → OptionsId → List IncludeContext → Registry → Prop
  /-- Nothing more is included. -/
  | done (r : Registry) (o : OptionsId) : Nests r o [] r
  /-- Instances are added. -/
  | meanwhile {r r₁ r' : Registry} {o : OptionsId} {contexts : List IncludeContext} :
    r.instances <+: r₁.instances → Nests r₁ o contexts r' → Nests r o contexts r'
  /-- A source at this location, if it has one, includes others. -/
  | enter {r r' : Registry} {o : OptionsId} {contexts : List IncludeContext}
    (location : Option String) :
    Nests (r.includeContext o location).2 (r.includeContext o location).1.included contexts r' →
      Nests r o ((r.includeContext o location).1 :: contexts) r'

theorem extends_includeContext (r : Registry) (o : OptionsId) (location : Option String) :
    Extends (o, r)
      ((r.includeContext o location).1.included, (r.includeContext o location).2) :=
  (keepsIncluder_clearForInclude r o).extends

theorem instances_prefix_of_nests {contexts : List IncludeContext} (h : Nests r o contexts r') :
    r.instances <+: r'.instances := by
  induction h with
  | done => exact List.prefix_rfl
  | meanwhile hgrows _ ih => exact hgrows.trans ih
  | enter location _ ih => exact (extends_includeContext _ _ location).1.trans ih

/-- The outermost context of a nesting, and what is nested in it. -/
theorem nests_cons {first : IncludeContext} {deeper : List IncludeContext}
    (h : Nests r o (first :: deeper) r') :
    ∃ (r₁ : Registry) (location : Option String),
      r.instances <+: r₁.instances ∧ first = (r₁.includeContext o location).1 ∧
      Nests (r₁.includeContext o location).2 first.included deeper r' := by
  generalize hall : first :: deeper = contexts at h
  induction h with
  | done => cases hall
  | meanwhile hgrows _ ih =>
    obtain ⟨r₁, location, hgrows₁, hfirst, hnests⟩ := ih hall
    exact ⟨r₁, location, hgrows.trans hgrows₁, hfirst, hnests⟩
  | enter location hnests =>
    obtain ⟨rfl, rfl⟩ := List.cons.inj hall
    exact ⟨_, location, List.prefix_rfl, rfl, hnests⟩

/-- **Below cleared options nothing is cleared any more**: all contexts hand out the very
instance. -/
theorem included_of_isCleared {contexts : List IncludeContext} (ho : r.Has o)
    (hcleared : (r.read o).IsCleared) (h : Nests r o contexts r') :
    ∀ c ∈ contexts, c.included = o := by
  induction h with
  | done => exact fun _ hc => absurd hc List.not_mem_nil
  | meanwhile hgrows _ ih =>
    refine ih (Nat.lt_of_lt_of_le ho hgrows.length_le) ?_
    rwa [Registry.read_of_prefix hgrows ho]
  | @enter r r' o contexts location _ ih =>
    have hsame : (r.includeContext o location).1.included = o ∧
        (r.includeContext o location).2 = r := by
      simp only [includeContext, clearForInclude_of_isCleared hcleared, and_self]
    rw [hsame.1, hsame.2] at ih
    exact List.forall_mem_cons.mpr ⟨hsame.1, ih ho hcleared⟩

/-- **All sources below the root share one instance of options.** It is what the include context of
the root hands out, and what every deeper one hands out as well, whenever it is asked. It has no
dialect and no description, and it tolerates missing sources, whatever the root says. Includer and
load context are those of the root, so directives are resolved by the same leaves in the same order.
The instance is the root itself exactly if nothing had to be cleared, and the root stays as it
is. -/
theorem included_of_nests {first : IncludeContext} {deeper : List IncludeContext} (ho : r.Has o)
    (h : Nests r o (first :: deeper) r') :
    (∀ c ∈ deeper, c.included = first.included) ∧
    (first.included = o ↔ (r.read o).IsCleared) ∧
    ((r'.read first.included).IsCleared ∧
      (r'.read first.included).includer = (r.read o).includer ∧
      (r'.read first.included).loadContext = (r.read o).loadContext) ∧
    (∀ s what,
      let leaves := leavesOf (r.read o).includer
      let asked := Chain.askAll (fun leaf => leaf.answer s (Includer.handOn s leaves) what) leaves
      Includer.resolve s (r.read o).includer what = asked ∧
        Includer.resolve s (r'.read first.included).includer what = asked) ∧
    r'.read o = r.read o := by
  obtain ⟨r₁, location, hgrows, rfl, hnests⟩ := nests_cons h
  have ho₁ : r₁.Has o := Nat.lt_of_lt_of_le ho hgrows.length_le
  have hhas := (extends_includeContext r₁ o location).2 ho₁
  have hmade : (r₁.includeContext o location).2.read (r₁.includeContext o location).1.included
      = (r.read o).cleared := by
    rw [← read_of_prefix hgrows ho]
    exact read_clearForInclude_eq_cleared r₁ o
  have hlater : r'.read (r₁.includeContext o location).1.included = (r.read o).cleared := by
    rw [Registry.read_of_prefix (instances_prefix_of_nests hnests) hhas, hmade]
  refine ⟨?_, ?_, ?_, fun s what => ?_, read_of_prefix (instances_prefix_of_nests h) ho⟩
  · exact included_of_isCleared hhas (hmade ▸ Options.isCleared_cleared _) hnests
  · rw [← read_of_prefix hgrows ho]
    exact clearForInclude_eq_iff ho₁
  · rw [hlater]
    exact ⟨Options.isCleared_cleared _, rfl, rfl⟩
  · rw [hlater]
    exact ⟨Includer.resolve_eq_askAll s _ what, Includer.resolve_eq_askAll s _ what⟩

/-- A root that insists on its source and has an includer, and two sources below it, of which the
second has no location; options are made in between. -/
theorem included_of_nests_insisting :
    let leaf : Includer := .leaf 0 (.rules "a" [])
    let root : Options := ⟨some .json, some "app.json", false, some leaf, none⟩
    let r : Registry := ⟨[root], 1⟩
    r.Has ⟨0⟩ ∧ ∃ first second r', Nests r ⟨0⟩ [first, second] r' ∧
      first.included ≠ ⟨0⟩ ∧ second.included = first.included ∧
      (r'.read second.included).allowMissing = true ∧
      (r'.read second.included).includer = some leaf := by
  intro leaf root r
  have hhas : r.Has ⟨0⟩ := Nat.zero_lt_one
  have hgrows : ∀ q : Registry, q.instances <+: q.defaults.2.instances := fun q =>
    List.prefix_append _ _
  have hnests : ∃ first second r', Nests r ⟨0⟩ [first, second] r' :=
    ⟨_, _, _, .enter (some "conf/app.json") (.meanwhile (hgrows _) (.enter none (.done _ _)))⟩
  obtain ⟨first, second, r', h⟩ := hnests
  obtain ⟨hsame, hroot, ⟨hcleared, hincluder, -⟩, -⟩ := included_of_nests hhas h
  have hsecond := hsame second List.mem_cons_self
  refine ⟨hhas, first, second, r', h, fun heq => ?_, hsecond, ?_, ?_⟩
  · exact absurd (hroot.mp heq).dialect (by simp [r, root, read])
  · rw [hsecond]
    exact hcleared.allowMissing
  · rw [hsecond, hincluder]
    rfl

end Registry

end ConfigSource
