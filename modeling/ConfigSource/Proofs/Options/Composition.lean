import ConfigSource.Proofs.Options.Reading

/-!
# What an update does to the leaves

An includer counts by its leaves, from left to right. An update either keeps the includer that is
set, or sets one that it was given, or makes a chain of the two
(`ConfigSource.Registry.update_cases`). It is refused only for want of an includer
(`ConfigSource.Registry.update_refused`).

`ConfigSource.Update.onLeaves` says on lists what this amounts to: the leaves of the argument
replace the list, or stand before it, or behind it. Whether an argument is the very includer that is
set is decided by identity, and by the whole includer: a part of the chain that is set is no such
argument, and its leaves are put in once more.
-/

namespace ConfigSource

/-- The leaves of the includer that is set, if one is. -/
def leavesOf : Option Includer → List Leaf
  | none => []
  | some includer => includer.leaves

namespace Update

variable {ι κ : Type}

/-- The includer that an update is given. -/
def argument : Update ι κ → Option ι
  | .includer value => value
  | .prepend value => value
  | .append value => value
  | _ => none

/-- What an update makes of the list of leaves, where `current` is the includer that is set. -/
def onLeaves (current : Option Includer) (leaves : List Leaf) : Update Includer κ → List Leaf
  | .includer value => leavesOf value
  | .prepend (some added) =>
    if current.map Chain.identity = some added.identity then leaves else added.leaves ++ leaves
  | .append (some added) =>
    if current.map Chain.identity = some added.identity then leaves else leaves ++ added.leaves
  | _ => leaves

end Update

namespace Registry

/-! ### Updates that are not about the includer -/

/-- From one instance to another, each on the way made with the includer of the one before. -/
inductive KeepsIncluder : OptionsId × Registry → OptionsId × Registry → Prop
  /-- Nothing is made. -/
  | refl (p : OptionsId × Registry) : KeepsIncluder p p
  /-- One more instance is made. -/
  | make {p q : OptionsId × Registry} {fields : Options} : KeepsIncluder p q →
      fields.includer = (q.2.read q.1).includer → KeepsIncluder p (q.2.make fields)

theorem KeepsIncluder.trans {p q s : OptionsId × Registry} (hpq : KeepsIncluder p q)
    (hqs : KeepsIncluder q s) : KeepsIncluder p s := by
  induction hqs with
  | refl => exact hpq
  | make _ hfields ih => exact .make ih hfields

theorem KeepsIncluder.includer_eq {p q : OptionsId × Registry} (h : KeepsIncluder p q) :
    (q.2.read q.1).includer = (p.2.read p.1).includer := by
  induction h with
  | refl => rfl
  | make _ hfields ih => rw [read_make, hfields, ih]

variable (r : Registry) (o : OptionsId)

theorem keepsIncluder_withDialect (d : Option Dialect) :
    KeepsIncluder (o, r) (r.withDialect o d) := by
  unfold withDialect
  split
  · exact .refl _
  · exact .make (.refl (o, r)) rfl

theorem keepsIncluder_withOriginDescription (d : Option String) :
    KeepsIncluder (o, r) (r.withOriginDescription o d) := by
  unfold withOriginDescription
  split
  · exact .refl _
  · exact .make (.refl (o, r)) rfl

theorem keepsIncluder_withFallbackOriginDescription (d : Option String) :
    KeepsIncluder (o, r) (r.withFallbackOriginDescription o d) := by
  unfold withFallbackOriginDescription
  split
  · exact keepsIncluder_withOriginDescription r o d
  · exact .refl _

theorem keepsIncluder_withAllowMissing (b : Bool) :
    KeepsIncluder (o, r) (r.withAllowMissing o b) := by
  unfold withAllowMissing
  split
  · exact .refl _
  · exact .make (.refl (o, r)) rfl

theorem keepsIncluder_withLoadContext (context : Option LoadContext) :
    KeepsIncluder (o, r) (r.withLoadContext o context) := by
  unfold withLoadContext
  split
  · exact .refl _
  · exact .make (.refl (o, r)) rfl

theorem keepsIncluder_clearForInclude : KeepsIncluder (o, r) (r.clearForInclude o) :=
  ((keepsIncluder_withDialect r o none).trans (keepsIncluder_withOriginDescription _ _ none)).trans
    (keepsIncluder_withAllowMissing _ _ true)

/-! ### All updates -/

/-- An includer that is there is put in front: of nothing, of itself, or of another one. -/
theorem prependIncluder_some (now : Int) (added : Includer) :
    r.prependIncluder now o (some added) = .ok (match (r.read o).includer with
      | none => r.withIncluder o (some added)
      | some current =>
        if current.identity = added.identity then (o, r) else r.withChain o added current) := by
  unfold prependIncluder
  cases (r.read o).includer with
  | none => rfl
  | some current => exact (apply_ite Except.ok _ _ _).symm

/-- An includer that is there is put behind: nothing, itself, or another one. -/
theorem appendIncluder_some (now : Int) (added : Includer) :
    r.appendIncluder now o (some added) = .ok (match (r.read o).includer with
      | none => r.withIncluder o (some added)
      | some current =>
        if current.identity = added.identity then (o, r) else r.withChain o current added) := by
  unfold appendIncluder
  cases (r.read o).includer with
  | none => rfl
  | some current => exact (apply_ite Except.ok _ _ _).symm

variable {r o} {now : Int} {u : Update Includer LoadContext} {p : OptionsId × Registry}

/-- **What an update can do about the includer**: keep it, set the one that is given, or set a new
chain. The new list of leaves is told in each case. -/
theorem update_cases (h : r.update now o u = .ok p) :
    (KeepsIncluder (o, r) p ∧
        u.onLeaves (r.read o).includer (leavesOf (r.read o).includer)
          = leavesOf (r.read o).includer) ∨
      (p = r.withIncluder o u.argument ∧
        u.onLeaves (r.read o).includer (leavesOf (r.read o).includer) = leavesOf u.argument) ∨
      ∃ primary secondary, p = r.withChain o primary secondary ∧
        (∀ i ∈ [primary, secondary], u.argument = some i ∨ (r.read o).includer = some i) ∧
        u.onLeaves (r.read o).includer (leavesOf (r.read o).includer)
          = primary.leaves ++ secondary.leaves := by
  cases u with
  | dialect value =>
    cases h
    exact Or.inl ⟨keepsIncluder_withDialect r o value, rfl⟩
  | originDescription value =>
    cases h
    exact Or.inl ⟨keepsIncluder_withOriginDescription r o value, rfl⟩
  | fallbackOriginDescription value =>
    cases h
    exact Or.inl ⟨keepsIncluder_withFallbackOriginDescription r o value, rfl⟩
  | allowMissing value =>
    cases h
    exact Or.inl ⟨keepsIncluder_withAllowMissing r o value, rfl⟩
  | loadContext value =>
    cases h
    exact Or.inl ⟨keepsIncluder_withLoadContext r o value, rfl⟩
  | clear =>
    cases h
    exact Or.inl ⟨keepsIncluder_clearForInclude r o, rfl⟩
  | includer value =>
    cases h
    exact Or.inr (Or.inl ⟨rfl, rfl⟩)
  | prepend value =>
    cases value with
    | none => cases h
    | some added =>
      obtain rfl := Except.ok.inj ((prependIncluder_some r o now added).symm.trans h)
      -- in front of nothing, of itself, or of another includer
      cases hset : (r.read o).includer with
      | none => exact Or.inr (Or.inl ⟨rfl, List.append_nil added.leaves⟩)
      | some current =>
        by_cases hsame : current.identity = added.identity
        · refine Or.inl ⟨?_, if_pos (congrArg some hsame)⟩
          simpa only [if_pos hsame] using KeepsIncluder.refl (o, r)
        · refine Or.inr (Or.inr ⟨added, current, if_neg hsame, ?_, ?_⟩)
          · simp [Update.argument]
          · exact if_neg fun h => hsame (Option.some.inj h)
  | append value =>
    cases value with
    | none => cases h
    | some added =>
      obtain rfl := Except.ok.inj ((appendIncluder_some r o now added).symm.trans h)
      -- behind nothing, behind itself, or behind another includer
      cases hset : (r.read o).includer with
      | none => exact Or.inr (Or.inl ⟨rfl, rfl⟩)
      | some current =>
        by_cases hsame : current.identity = added.identity
        · refine Or.inl ⟨?_, if_pos (congrArg some hsame)⟩
          simpa only [if_pos hsame] using KeepsIncluder.refl (o, r)
        · refine Or.inr (Or.inr ⟨current, added, if_neg hsame, ?_, ?_⟩)
          · simp [Update.argument]
          · exact if_neg fun h => hsame (Option.some.inj h)

/-- **An update is refused only for want of an includer.** -/
theorem update_refused {e : Value} (h : r.update now o u = .error e) :
    u = .prepend none ∨ u = .append none := by
  cases u with
  | prepend value =>
    cases value with
    | none => exact Or.inl rfl
    | some added => exact absurd ((prependIncluder_some r o now added).symm.trans h) (by simp)
  | append value =>
    cases value with
    | none => exact Or.inr rfl
    | some added => exact absurd ((appendIncluder_some r o now added).symm.trans h) (by simp)
  | _ => cases h

/-! ### Instances stay -/

/-- An instance that was made. -/
def Has (r : Registry) (o : OptionsId) : Prop := o.index < r.instances.length

/-- From one registry to another, instances are only added, and an instance leads to one that was
made. -/
def Extends (p q : OptionsId × Registry) : Prop :=
  p.2.instances <+: q.2.instances ∧ (p.2.Has p.1 → q.2.Has q.1)

theorem read_of_prefix {r r' : Registry} {o : OptionsId} (h : r.instances <+: r'.instances)
    (ho : r.Has o) : r'.read o = r.read o := by
  obtain ⟨added, hadded⟩ := h
  rw [read, read, ← hadded, List.getElem?_append_left ho]

theorem extends_make (p : OptionsId × Registry) (fields : Options) :
    Extends p (p.2.make fields) :=
  ⟨List.prefix_append _ _, fun _ => by simp [Has, make]⟩

theorem KeepsIncluder.extends {p q : OptionsId × Registry} (h : KeepsIncluder p q) :
    Extends p q := by
  induction h with
  | refl => exact ⟨List.prefix_rfl, id⟩
  | @make q fields _ _ ih =>
    have hmake := extends_make q fields
    exact ⟨ih.1.trans hmake.1, fun hp => hmake.2 (ih.2 hp)⟩

theorem extends_withIncluder (r : Registry) (o : OptionsId) (value : Option Includer) :
    Extends (o, r) (r.withIncluder o value) := by
  unfold withIncluder
  split
  · exact ⟨List.prefix_rfl, id⟩
  · exact extends_make (o, r) _

/-- **An update adds instances and changes none.** -/
theorem extends_update (h : r.update now o u = .ok p) : Extends (o, r) p := by
  rcases update_cases h with ⟨hkeeps, -⟩ | ⟨rfl, -⟩ | ⟨primary, secondary, rfl, -, -⟩
  · exact hkeeps.extends
  · exact extends_withIncluder r o u.argument
  · exact extends_withIncluder (r.chain primary secondary).2 o _

end Registry

end ConfigSource
