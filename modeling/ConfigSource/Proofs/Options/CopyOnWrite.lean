import ConfigSource.Proofs.Options.World

/-!
# Copy on write

Options are never changed in place. An **operation** on an instance – an update, or loading settings
over it – gives that very instance if it would change nothing, and a new instance otherwise; all
instances that there were stay as they are (`ConfigSource.Registry.copyOnWrite`).

* `ConfigSource.Composition`: what an includer does to take another one as its fallback. The
  includers of this library make a new chain (`ConfigSource.Registry.updateBy_chain`); one from
  elsewhere may do as it likes, and nothing but the last part of the theorem depends on it.
* `ConfigSource.Operation`: the operations, with the fields that each is about and what it sets
  there.

The last part holds in every world that can be reached, loading included
(`ConfigSource.World.IsReached`).
-/

namespace ConfigSource

/-! ### Operations -/

/-- How one includer takes another one as its fallback. What an includer from elsewhere does there
is open; it may make instances, but it cannot change one. -/
structure Composition where
  /-- The includer that comes of it, or the refusal. -/
  compose : Registry → Includer → Includer → Except Value (Includer × Registry)
  /-- Instances are only added. -/
  grows : ∀ {r : Registry} {primary secondary : Includer} {made : Includer × Registry},
    compose r primary secondary = .ok made → r.instances <+: made.2.instances

/-- The includers of this library make a new chain. -/
def Composition.chain : Composition where
  compose r primary secondary := .ok (r.chain primary secondary)
  grows h := by
    obtain rfl := Except.ok.inj h
    exact List.prefix_rfl

/-- What gives an instance for another one. -/
inductive Operation where
  /-- An update. -/
  | update (u : Update Includer LoadContext)
  /-- Loading settings over the instance. -/
  | load (logger : Log.Logger) (sources : List Source)

/-- The fields that an update is about. -/
def Update.fields {ι κ : Type} : Update ι κ → List Field
  | .dialect _ => [.dialect]
  | .originDescription _ => [.originDescription]
  | .fallbackOriginDescription _ => [.originDescription]
  | .allowMissing _ => [.allowMissing]
  | .includer _ => [.includer]
  | .prepend _ => [.includer]
  | .append _ => [.includer]
  | .loadContext _ => [.loadContext]
  | .clear => [.dialect, .originDescription, .allowMissing]

namespace Operation

/-- The fields that an operation is about. -/
def fields : Operation → List Field
  | update u => u.fields
  | load _ _ => [.dialect, .originDescription, .allowMissing]

/-- **What an operation is to set**, from the fields before to the fields after. An includer is set
in front of nothing, and behind nothing, as it is given. -/
def Sets (now : Int) (before after : Options) : Operation → Prop
  | update (.dialect value) => after.dialect = value
  | update (.originDescription value) => after.originDescription = value
  | update (.fallbackOriginDescription value) =>
    after.originDescription = before.originDescription.or value
  | update (.allowMissing value) => after.allowMissing = value
  | update (.includer value) =>
    after.includer.map Chain.identity = value.map Chain.identity
  | update (.prepend value) =>
    before.includer = none → after.includer.map Chain.identity = value.map Chain.identity
  | update (.append value) =>
    before.includer = none → after.includer.map Chain.identity = value.map Chain.identity
  | update (.loadContext value) =>
    after.loadContext.map LoadContext.identity = value.map LoadContext.identity
  | update .clear =>
    after.dialect = none ∧ after.originDescription = none ∧ after.allowMissing = true
  | load logger sources =>
    ∃ settings, (readSettings now logger sources).1 = .ok settings ∧
      after = before.withSettings settings

end Operation

namespace Registry

/-- The options with an includer that is combined with the one that is set, if another one is. -/
def combine (c : Composition) (r : Registry) (o : OptionsId) (added : Includer)
    (order : Includer → Includer × Includer) : Except Value (OptionsId × Registry) :=
  match (r.read o).includer with
  | none => .ok (r.withIncluder o (some added))
  | some current =>
    if current.identity = added.identity then .ok (o, r)
    else
      (c.compose r (order current).1 (order current).2).map fun made =>
        made.2.withIncluder o (some made.1)

/-- Makes an update, for includers that compose as they like. -/
def updateBy (c : Composition) (r : Registry) (now : Int) (o : OptionsId) :
    Update Includer LoadContext → Except Value (OptionsId × Registry)
  | .prepend (some added) => r.combine c o added fun current => (added, current)
  | .append (some added) => r.combine c o added fun current => (current, added)
  | u => r.update now o u

/-- Performs an operation; one that is refused leaves the registry. -/
def perform (c : Composition) (r : Registry) (now : Int) (o : OptionsId) :
    Operation → Except Value OptionsId × Registry
  | .update u =>
    match r.updateBy c now o u with
    | .ok (made, r) => (.ok made, r)
    | .error e => (.error e, r)
  | .load logger sources => (r.load now logger sources o).1

/-- **For the includers of this library this is the update.** -/
theorem updateBy_chain (r : Registry) (now : Int) (o : OptionsId)
    (u : Update Includer LoadContext) : r.updateBy .chain now o u = r.update now o u := by
  have hcombine : ∀ added order, r.combine .chain o added order
      = .ok (match (r.read o).includer with
        | none => r.withIncluder o (some added)
        | some current =>
          if current.identity = added.identity then (o, r)
          else r.withChain o (order current).1 (order current).2) := fun added order => by
    unfold combine
    cases (r.read o).includer with
    | none => rfl
    | some current => exact (apply_ite Except.ok _ _ _).symm
  cases u with
  | prepend value =>
    cases value with
    | none => rfl
    | some added => exact (hcombine added _).trans (prependIncluder_some r o now added).symm
  | append value =>
    cases value with
    | none => rfl
    | some added => exact (hcombine added _).trans (appendIncluder_some r o now added).symm
  | _ => rfl

variable {c : Composition} {r : Registry} {o o' : OptionsId} {now : Int} {op : Operation}

/-! ### What an operation does -/

/-- An includer that is combined with none is set as it is given. -/
theorem identity_combine {added : Includer} {order : Includer → Includer × Includer}
    {p : OptionsId × Registry} (h : r.combine c o added order = .ok p)
    (hnone : (r.read o).includer = none) :
    (p.2.read p.1).includer.map Chain.identity = some added.identity := by
  simp only [combine, hnone, Except.ok.injEq] at h
  rw [← h, identity_withIncluder, Option.map_some]

/-- Combining includers copies what it changes. -/
theorem copies_combine {added : Includer} {order : Includer → Includer × Includer}
    {p : OptionsId × Registry} (ho : r.Has o) (h : r.combine c o added order = .ok p) :
    Copies [.includer] (o, r) p := by
  unfold combine at h
  split at h
  · obtain rfl := Except.ok.inj h
    exact copies_withIncluder ho (some added)
  · next current _ =>
    split at h
    · obtain rfl := Except.ok.inj h
      exact .refl ho
    · cases hmade : c.compose r (order current).1 (order current).2 with
      | error e => simp [hmade, Except.map] at h
      | ok made =>
        rw [hmade] at h
        obtain rfl := Except.ok.inj h
        have hgrows := c.grows hmade
        exact .of_grown hgrows ho
          (copies_withIncluder (Nat.lt_of_lt_of_le ho hgrows.length_le) (some made.1))

/-- **An update copies what it changes, and sets what it is to set.** -/
theorem updateBy_spec {u : Update Includer LoadContext} {p : OptionsId × Registry} (ho : r.Has o)
    (h : r.updateBy c now o u = .ok p) :
    Copies u.fields (o, r) p ∧ (Operation.update u).Sets now (r.read o) (p.2.read p.1) := by
  cases u with
  | prepend value =>
    cases value with
    | none => cases h
    | some added => exact ⟨copies_combine ho h, identity_combine h⟩
  | append value =>
    cases value with
    | none => cases h
    | some added => exact ⟨copies_combine ho h, identity_combine h⟩
  | dialect value =>
    obtain rfl := Except.ok.inj h
    exact ⟨copies_withDialect ho value, congrArg Options.dialect (read_withDialect r o value)⟩
  | originDescription value =>
    obtain rfl := Except.ok.inj h
    exact ⟨copies_withOriginDescription ho value,
      congrArg Options.originDescription (read_withOriginDescription r o value)⟩
  | fallbackOriginDescription value =>
    obtain rfl := Except.ok.inj h
    exact ⟨copies_withFallbackOriginDescription ho value,
      congrArg Options.originDescription (read_withFallbackOriginDescription r o value)⟩
  | allowMissing value =>
    obtain rfl := Except.ok.inj h
    exact ⟨copies_withAllowMissing ho value,
      congrArg Options.allowMissing (read_withAllowMissing r o value)⟩
  | includer value =>
    obtain rfl := Except.ok.inj h
    exact ⟨copies_withIncluder ho value, identity_withIncluder r o value⟩
  | loadContext value =>
    obtain rfl := Except.ok.inj h
    exact ⟨copies_withLoadContext ho value, identity_withLoadContext r o value⟩
  | clear =>
    obtain rfl := Except.ok.inj h
    have hread := read_clearForInclude r o
    exact ⟨copies_clearForInclude ho, congrArg Options.dialect hread,
      congrArg Options.originDescription hread, congrArg Options.allowMissing hread⟩

theorem perform_update_of_ok {u : Update Includer LoadContext} {p : OptionsId × Registry}
    (h : r.updateBy c now o u = .ok p) : r.perform c now o (.update u) = (.ok p.1, p.2) := by
  simp only [perform, h]

theorem perform_load_of_ok {logger : Log.Logger} {sources : List Source} {settings : Settings}
    (h : (readSettings now logger sources).1 = .ok settings) :
    r.perform c now o (.load logger sources)
      = (.ok (r.applySettings o settings).1, (r.applySettings o settings).2) := by
  rcases hread : readSettings now logger sources with ⟨outcome, lines⟩
  obtain rfl : outcome = .ok settings := by simpa [hread] using h
  simp [perform, load, hread]

/-- An operation that gave an instance, as an update or as applied settings. -/
theorem perform_cases (h : (r.perform c now o op).1 = .ok o') :
    (∃ u, op = .update u ∧ r.updateBy c now o u = .ok (o', (r.perform c now o op).2)) ∨
      ∃ logger sources settings, op = .load logger sources ∧
        (readSettings now logger sources).1 = .ok settings ∧
        r.applySettings o settings = (o', (r.perform c now o op).2) := by
  cases op with
  | update u =>
    refine Or.inl ⟨u, rfl, ?_⟩
    cases hu : r.updateBy c now o u with
    | error e => simp [perform, hu] at h
    | ok p =>
      rw [perform_update_of_ok hu] at h ⊢
      obtain rfl : p.1 = o' := Except.ok.inj h
      rfl
  | load logger sources =>
    refine Or.inr ⟨logger, sources, ?_⟩
    cases hread : (readSettings now logger sources).1 with
    | error e =>
      rcases hall : readSettings now logger sources with ⟨outcome, lines⟩
      obtain rfl : outcome = .error e := by simpa [hall] using hread
      simp [perform, load, hall] at h
    | ok settings =>
      rw [perform_load_of_ok hread] at h ⊢
      obtain rfl : (r.applySettings o settings).1 = o' := Except.ok.inj h
      exact ⟨settings, rfl, rfl, rfl⟩

/-- **So does every operation.** -/
theorem perform_spec (ho : r.Has o) (h : (r.perform c now o op).1 = .ok o') :
    Copies op.fields (o, r) (o', (r.perform c now o op).2) ∧
      op.Sets now (r.read o) ((r.perform c now o op).2.read o') := by
  rcases perform_cases h with ⟨u, rfl, hu⟩ | ⟨logger, sources, settings, rfl, hread, hs⟩
  · exact updateBy_spec ho hu
  · have hsets := read_applySettings r o settings
    have hcopies := copies_applySettings ho settings
    rw [hs] at hsets hcopies
    exact ⟨hcopies, settings, hread, hsets⟩

/-- **No operation changes an instance**, whether it gives one or is refused. -/
theorem grows_perform (ho : r.Has o) :
    r.instances <+: (r.perform c now o op).2.instances := by
  cases h : (r.perform c now o op).1 with
  | ok o' => exact (perform_spec ho h).1.grows
  | error e =>
    cases op with
    | update u =>
      cases hu : r.updateBy c now o u with
      | ok p => simp [perform_update_of_ok hu] at h
      | error e' => simp [perform, hu]
    | load logger sources =>
      rcases hall : readSettings now logger sources with ⟨outcome, lines⟩
      cases outcome with
      | ok settings => simp [perform, load, hall] at h
      | error e' => simp [perform, load, hall]

end Registry

/-! ### Combining an includer that exists -/

namespace World

/-- **In a sound world an includer that is combined gives the receiver exactly if it is the one
that is set.** -/
theorem Sound.combine_eq_iff {r : Registry} {is : List Includer} (h : Sound ⟨r, is⟩)
    {o : OptionsId} (ho : r.Has o) {added : Includer} (hadded : added ∈ is)
    (order : Includer → Includer × Includer) :
    ∃ p, r.combine .chain o added order = .ok p ∧
      (p.1 = o ↔ (r.read o).includer = some added) := by
  have hnew : ∀ fields, (r.make fields).1 ≠ o := fun fields heq =>
    Registry.not_has_make r fields (heq ▸ ho)
  unfold Registry.combine
  cases hset : (r.read o).includer with
  | none =>
    refine ⟨_, rfl, iff_of_false ?_ (by simp)⟩
    rw [Registry.withIncluder, hset]
    exact hnew _
  | some current =>
    by_cases hsame : current.identity = added.identity
    · refine ⟨_, if_pos hsame, iff_of_true rfl ?_⟩
      rw [h.unique current (h.of_read hset) added hadded hsame]
    · refine ⟨_, if_neg hsame, iff_of_false ?_ ?_⟩
      · exact fun heq => Registry.not_has_make (r.chain _ _).2 _
          ((congrArg Prod.fst (h.withChain_eq o _ _)).symm.trans heq ▸ ho)
      · rintro hcurrent
        exact hsame (congrArg Chain.identity (Option.some.inj hcurrent))

end World

namespace Registry

/-- **Options are copied on write.** An operation on an instance gives the instance itself exactly
if all fields of what it gives are the same; what it gives otherwise is new. It sets what it is to
set, and the fields that it is not about are those of the instance. All instances that there were
have the fields they had, also if it is refused. With the includers of this library an update is the
one that options know, and in a world that can be reached, an includer of theirs that is put in
front or behind gives the instance itself exactly if it is the includer that is set. -/
theorem copyOnWrite (c : Composition) {r : Registry} (now : Int) {o : OptionsId} (ho : r.Has o)
    (op : Operation) :
    let result := r.perform c now o op
    (∀ o', result.1 = .ok o' →
      (o' = o ↔ ∀ f : Field, f.Same (result.2.read o') (r.read o)) ∧
      (o' ≠ o → ¬r.Has o' ∧ result.2.Has o') ∧
      op.Sets now (r.read o) (result.2.read o') ∧
      ∀ f, f ∉ op.fields → f.Agree (result.2.read o') (r.read o)) ∧
    (∀ other, r.Has other → result.2.Has other ∧ result.2.read other = r.read other) ∧
    (∀ u, r.updateBy .chain now o u = r.update now o u) ∧
    ∀ includers, World.IsReached ⟨r, includers⟩ → ∀ added ∈ includers,
      ∀ u ∈ [Update.prepend (some added), .append (some added)], ∃ o',
        (r.perform .chain now o (.update u)).1 = .ok o' ∧
          (o' = o ↔ (r.read o).includer = some added) := by
  intro result
  refine ⟨fun o' h => ?_, fun other hother => ?_, updateBy_chain r now o,
    fun includers hreached added hadded u hu => ?_⟩
  · obtain ⟨hcopies, hsets⟩ : Copies op.fields (o, r) (o', result.2) ∧ _ := perform_spec ho h
    refine ⟨hcopies.eq_iff ho, fun hne => ?_, hsets, hcopies.keeps⟩
    exact ⟨(hcopies.made.resolve_left hne).1, hcopies.has⟩
  · have hgrows : r.instances <+: result.2.instances := grows_perform ho
    exact ⟨Nat.lt_of_lt_of_le hother hgrows.length_le, read_of_prefix hgrows hother⟩
  · have hsound := World.sound_of_reached hreached
    have hcombine : ∃ order, r.updateBy .chain now o u = r.combine .chain o added order := by
      rw [List.mem_cons, List.mem_singleton] at hu
      rcases hu with rfl | rfl
      · exact ⟨_, rfl⟩
      · exact ⟨_, rfl⟩
    obtain ⟨order, horder⟩ := hcombine
    obtain ⟨p, hp, hiff⟩ := hsound.combine_eq_iff ho hadded order
    refine ⟨p.1, ?_, hiff⟩
    rw [perform_update_of_ok (horder.trans hp)]

/-- In a world with one leaf, and options that say nothing, putting the leaf in front makes new
options and leaves the old ones. -/
theorem copyOnWrite_oneLeaf :
    let r : Registry := ⟨[.defaults], 1⟩
    let leaf : Includer := .leaf 0 (.rules "a" [])
    let result := r.perform .chain 0 ⟨0⟩ (.update (.prepend (some leaf)))
    r.Has ⟨0⟩ ∧ World.IsReached ⟨r, [leaf]⟩ ∧
      ∃ o', result.1 = .ok o' ∧ ¬r.Has o' ∧ result.2.read ⟨0⟩ = r.read ⟨0⟩ := by
  intro r leaf result
  have hhas : r.Has ⟨0⟩ := Nat.zero_lt_one
  have hreached : World.IsReached ⟨r, [leaf]⟩ :=
    .step (.step .empty (.leaf .empty (.rules "a" []))) (.defaults _)
  obtain ⟨hmade, hold, -, hsame⟩ := copyOnWrite .chain 0 hhas (.update (.prepend (some leaf)))
  obtain ⟨o', ho', hiff⟩ := hsame [leaf] hreached leaf List.mem_cons_self (.prepend (some leaf))
    List.mem_cons_self
  -- no includer is set yet, so the leaf is not the one that is set
  have hne : o' ≠ ⟨0⟩ := fun h => absurd (hiff.mp h) (by simp [r, read, Options.defaults])
  exact ⟨hhas, hreached, o', ho', ((hmade o' ho').2.1 hne).1, (hold ⟨0⟩ hhas).2⟩

end Registry

end ConfigSource
