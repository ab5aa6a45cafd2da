import ConfigSource.Proofs.Options.Composition

/-!
# What is left of an instance

An update is about some of the five fields, and before it makes an instance it asks whether the
value there is the same already. What it gives is a **copy** of the instance it was made on: that
instance itself, or a new one that differs in a field that the update is about
(`ConfigSource.Copies`).

* `ConfigSource.Field`: the five fields, with two ways to compare them. Two options *agree* in a
  field if they have the same value there; what is asked before a copy is made is whether the value
  is the *same*, and includers and load contexts are the same if their identities are.
* `ConfigSource.Copies.eq_iff`: a copy is the instance itself exactly if all its fields are the
  same.
* `ConfigSource.Copies.trans`: a copy of a copy is a copy if the two are about different fields.
  This is how clearing and applying settings never make an instance just to change it back.
* `ConfigSource.Registry.copies_ite`: one update of one field makes a copy; runs of them are put
  together from it.
-/

namespace ConfigSource

/-! ### Fields -/

/-- A field of options. -/
inductive Field where
  /-- The dialect. -/
  | dialect
  /-- The origin description. -/
  | originDescription
  /-- Whether a missing source is tolerated. -/
  | allowMissing
  /-- The includer. -/
  | includer
  /-- The load context that was set. -/
  | loadContext
deriving DecidableEq

namespace Field

/-- Two options have the same value in a field. -/
def Agree : Field → Options → Options → Prop
  | dialect, a, b => a.dialect = b.dialect
  | originDescription, a, b => a.originDescription = b.originDescription
  | allowMissing, a, b => a.allowMissing = b.allowMissing
  | includer, a, b => a.includer = b.includer
  | loadContext, a, b => a.loadContext = b.loadContext

/-- The values that two options have in a field are the same: includers and load contexts are
compared by their identities. -/
def Same : Field → Options → Options → Prop
  | dialect, a, b => a.dialect = b.dialect
  | originDescription, a, b => a.originDescription = b.originDescription
  | allowMissing, a, b => a.allowMissing = b.allowMissing
  | includer, a, b => a.includer.map Chain.identity = b.includer.map Chain.identity
  | loadContext, a, b =>
    a.loadContext.map LoadContext.identity = b.loadContext.map LoadContext.identity

variable {f : Field} {a b c : Options}

theorem agree_rfl (f : Field) (a : Options) : f.Agree a a := by
  cases f <;> rfl

theorem Agree.symm (h : f.Agree a b) : f.Agree b a := by
  cases f <;> exact Eq.symm h

theorem Agree.trans (hab : f.Agree a b) (hbc : f.Agree b c) : f.Agree a c := by
  cases f <;> exact Eq.trans hab hbc

theorem Agree.same (h : f.Agree a b) : f.Same a b := by
  cases f with
  | includer => exact congrArg (Option.map Chain.identity) h
  | loadContext => exact congrArg (Option.map LoadContext.identity) h
  | _ => exact h

/-- What is the same as the one of two values that agree is the same as the other. -/
theorem Same.trans_agree (hab : f.Same a b) (hbc : f.Agree b c) : f.Same a c := by
  cases f <;> exact Eq.trans hab hbc.same

end Field

/-! ### What is left of an instance -/

/-- An instance that was got from another one by updates of certain fields. -/
structure Copies (about : List Field) (p q : OptionsId × Registry) : Prop where
  /-- Instances are only added. -/
  grows : p.2.instances <+: q.2.instances
  /-- The instance was made. -/
  has : q.2.Has q.1
  /-- It is the other one, or it is new and differs in one of the fields. -/
  made : q.1 = p.1 ∨ ¬p.2.Has q.1 ∧ ∃ f ∈ about, ¬f.Same (q.2.read q.1) (p.2.read p.1)
  /-- The other fields are copied. -/
  keeps : ∀ f, f ∉ about → f.Agree (q.2.read q.1) (p.2.read p.1)

namespace Copies

variable {about more : List Field} {p q s : OptionsId × Registry}

theorem refl (hp : p.2.Has p.1) : Copies about p p :=
  ⟨List.prefix_rfl, hp, Or.inl rfl, fun f _ => f.agree_rfl _⟩

/-- An instance that was not copied has its fields. -/
theorem read_eq (h : Copies about p q) (hp : p.2.Has p.1) (hsame : q.1 = p.1) :
    q.2.read q.1 = p.2.read p.1 := by
  rw [hsame, Registry.read_of_prefix h.grows hp]

/-- **A copy is made exactly if something changes.** -/
theorem eq_iff (h : Copies about p q) (hp : p.2.Has p.1) :
    q.1 = p.1 ↔ ∀ f : Field, f.Same (q.2.read q.1) (p.2.read p.1) := by
  constructor
  · intro hsame f
    rw [h.read_eq hp hsame]
    exact (f.agree_rfl _).same
  · intro hall
    rcases h.made with hsame | ⟨-, f, -, hdiffers⟩
    · exact hsame
    · exact absurd (hall f) hdiffers

/-- **Updates of other fields do not undo a change**: what was changed first stays different. -/
theorem trans (hpq : Copies about p q) (hqs : Copies more q s)
    (hother : ∀ f ∈ more, f ∉ about) : Copies (about ++ more) p s where
  grows := hpq.grows.trans hqs.grows
  has := hqs.has
  made := by
    rcases hqs.made with hsq | ⟨hnew, f, hf, hdiffers⟩
    · -- the second run made no copy, so the instance is what the first one gave
      rcases hpq.made with hqp | ⟨hnew, f, hf, hdiffers⟩
      · exact Or.inl (hsq.trans hqp)
      · refine Or.inr ⟨hsq ▸ hnew, f, List.mem_append_left _ hf, ?_⟩
        rwa [hqs.read_eq hpq.has hsq]
    · -- a field of the second run differs, and the first run left it alone
      refine Or.inr ⟨fun hold => hnew (Nat.lt_of_lt_of_le hold hpq.grows.length_le), f,
        List.mem_append_right _ hf, fun hsame => hdiffers ?_⟩
      exact hsame.trans_agree (hpq.keeps f (hother f hf)).symm
  keeps := fun f hf => by
    rw [List.mem_append, not_or] at hf
    exact (hqs.keeps f hf.2).trans (hpq.keeps f hf.1)

/-- Instances that were made meanwhile make no difference. -/
theorem of_grown {r r' : Registry} {o : OptionsId} (hr : r.instances <+: r'.instances)
    (ho : r.Has o) (h : Copies about (o, r') q) : Copies about (o, r) q where
  grows := hr.trans h.grows
  has := h.has
  made := by
    rcases h.made with hsame | ⟨hnew, hdiffers⟩
    · exact Or.inl hsame
    · rw [Registry.read_of_prefix hr ho] at hdiffers
      exact Or.inr ⟨fun hold => hnew (Nat.lt_of_lt_of_le hold hr.length_le), hdiffers⟩
  keeps := fun f hf => by
    have hkeeps := h.keeps f hf
    rwa [Registry.read_of_prefix hr ho] at hkeeps

end Copies

/-! ### One update of one field -/

namespace Registry

variable {r : Registry} {o : OptionsId}

theorem not_has_make (r : Registry) (fields : Options) : ¬r.Has (r.make fields).1 :=
  Nat.lt_irrefl _

/-- **An update of one field copies only what it changes.** -/
theorem copies_ite {P : Prop} [Decidable P] {f : Field} {fields : Options} (ho : r.Has o)
    (hsame : f.Same fields (r.read o) → P)
    (hkeeps : ∀ g : Field, g ≠ f → g.Agree fields (r.read o)) :
    Copies [f] (o, r) (if P then (o, r) else r.make fields) := by
  split
  · exact .refl ho
  · next hP =>
    have hmake := extends_make (o, r) fields
    refine ⟨hmake.1, hmake.2 ho, Or.inr ⟨not_has_make r fields, f, List.mem_cons_self, ?_⟩, ?_⟩
    · rw [read_make]
      exact fun h => hP (hsame h)
    · intro g hg
      rw [read_make]
      exact hkeeps g fun h => hg (h ▸ List.mem_cons_self)

theorem copies_withDialect (ho : r.Has o) (d : Option Dialect) :
    Copies [.dialect] (o, r) (r.withDialect o d) :=
  copies_ite ho Eq.symm fun g hg => by cases g <;> first | rfl | exact absurd rfl hg

theorem copies_withOriginDescription (ho : r.Has o) (d : Option String) :
    Copies [.originDescription] (o, r) (r.withOriginDescription o d) :=
  copies_ite ho Eq.symm fun g hg => by cases g <;> first | rfl | exact absurd rfl hg

theorem copies_withAllowMissing (ho : r.Has o) (b : Bool) :
    Copies [.allowMissing] (o, r) (r.withAllowMissing o b) :=
  copies_ite ho Eq.symm fun g hg => by cases g <;> first | rfl | exact absurd rfl hg

theorem copies_withIncluder (ho : r.Has o) (includer : Option Includer) :
    Copies [.includer] (o, r) (r.withIncluder o includer) :=
  copies_ite ho Eq.symm fun g hg => by cases g <;> first | rfl | exact absurd rfl hg

theorem copies_withLoadContext (ho : r.Has o) (context : Option LoadContext) :
    Copies [.loadContext] (o, r) (r.withLoadContext o context) :=
  copies_ite ho Eq.symm fun g hg => by cases g <;> first | rfl | exact absurd rfl hg

theorem copies_withFallbackOriginDescription (ho : r.Has o) (d : Option String) :
    Copies [.originDescription] (o, r) (r.withFallbackOriginDescription o d) := by
  unfold withFallbackOriginDescription
  split
  · exact copies_withOriginDescription ho d
  · exact .refl ho

/-! ### Runs of updates of several fields -/

theorem copies_clearForInclude (ho : r.Has o) :
    Copies [.dialect, .originDescription, .allowMissing] (o, r) (r.clearForInclude o) := by
  have hdialect := copies_withDialect ho none
  have horigin := copies_withOriginDescription hdialect.has none
  have hmissing := copies_withAllowMissing horigin.has true
  exact (hdialect.trans horigin (by decide)).trans hmissing (by decide)

/-- What holds of the options and of every update of them holds of the update by a setting that may
be missing. -/
theorem updateWith_cases {α : Type} {P : OptionsId × Registry → Prop} (r : Registry) (o : OptionsId)
    (setting : Option α) {update : Registry → OptionsId → α → OptionsId × Registry}
    (hnone : P (o, r)) (hsome : ∀ a, P (update r o a)) : P (r.updateWith o setting update) := by
  cases setting with
  | none => exact hnone
  | some a => exact hsome a

theorem copies_applySettings (ho : r.Has o) (s : Settings) :
    Copies [.dialect, .originDescription, .allowMissing] (o, r) (r.applySettings o s) := by
  have hdialect : Copies [.dialect] (o, r)
      (r.updateWith o s.dialect fun r o d => r.withDialect o (some d)) :=
    updateWith_cases r o s.dialect (.refl ho) fun d => copies_withDialect ho (some d)
  have horigin : Copies [.originDescription] _
      (Registry.updateWith _ _ s.origin fun r o d => r.withOriginDescription o (some d)) :=
    updateWith_cases _ _ s.origin (.refl hdialect.has) fun d =>
      copies_withOriginDescription hdialect.has (some d)
  have hmissing : Copies [.allowMissing] _
      (Registry.updateWith _ _ s.allowMissing withAllowMissing) :=
    updateWith_cases _ _ s.allowMissing (.refl horigin.has) fun b =>
      copies_withAllowMissing horigin.has b
  exact (hdialect.trans horigin (by decide)).trans hmissing (by decide)

/-- Settings say nothing about includers. -/
theorem keepsIncluder_applySettings (r : Registry) (o : OptionsId) (s : Settings) :
    KeepsIncluder (o, r) (r.applySettings o s) := by
  have hdialect : ∀ r o, KeepsIncluder (o, r)
      (r.updateWith o s.dialect fun r o d => r.withDialect o (some d)) := fun r o =>
    updateWith_cases r o s.dialect (.refl _) fun d => keepsIncluder_withDialect r o (some d)
  have horigin : ∀ r o, KeepsIncluder (o, r)
      (r.updateWith o s.origin fun r o d => r.withOriginDescription o (some d)) := fun r o =>
    updateWith_cases r o s.origin (.refl _) fun d =>
      keepsIncluder_withOriginDescription r o (some d)
  have hmissing : ∀ r o, KeepsIncluder (o, r)
      (r.updateWith o s.allowMissing withAllowMissing) := fun r o =>
    updateWith_cases r o s.allowMissing (.refl _) fun b => keepsIncluder_withAllowMissing r o b
  exact ((hdialect r o).trans (horigin _ _)).trans (hmissing _ _)

end Registry

end ConfigSource
