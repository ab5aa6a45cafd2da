import ConfigSource.Proofs.Options.Copies
import ConfigSource.Settings.Load

/-!
# How a registry grows

Whatever is done with options, the registry **grows**: instances are added behind those that are
there, identities are handed out upwards, and a load context that is set in a new instance was set
in an old one or was given to the update (`ConfigSource.Registry.Grows`).

* `ConfigSource.Registry.grows_update`: any update;
* `ConfigSource.Registry.grows_load`: loading settings.
-/

namespace ConfigSource

namespace Registry

/-- Every load context that is set in an instance satisfies a property. -/
def ContextsAre (r : Registry) (good : LoadContext → Prop) : Prop :=
  ∀ fields ∈ r.instances, ∀ c, fields.loadContext = some c → good c

/-- **From one registry to another**: instances are added, identities handed out, and the load
contexts that are set keep a property that they had. -/
structure Grows (good : LoadContext → Prop) (r r' : Registry) : Prop where
  /-- Instances are only added. -/
  instances : r.instances <+: r'.instances
  /-- Identities are not taken back. -/
  identity : r.nextIdentity ≤ r'.nextIdentity
  /-- No other load contexts are set. -/
  contexts : r.ContextsAre good → r'.ContextsAre good

variable {good : LoadContext → Prop} {r r' : Registry} {o : OptionsId} {fields : Options}

theorem ContextsAre.of_read (h : r.ContextsAre good) (o : OptionsId) {c : LoadContext}
    (hset : (r.read o).loadContext = some c) : good c := by
  unfold read at hset
  cases hfields : r.instances[o.index]? with
  | none =>
    rw [hfields] at hset
    cases hset
  | some fields =>
    rw [hfields] at hset
    exact h fields (List.mem_of_getElem? hfields) c hset

theorem ContextsAre.mono {good' : LoadContext → Prop} (h : r.ContextsAre good)
    (hmono : ∀ c, good c → good' c) : r.ContextsAre good' :=
  fun fields hfields c hc => hmono c (h fields hfields c hc)

namespace Grows

theorem refl (good : LoadContext → Prop) (r : Registry) : Grows good r r :=
  ⟨List.prefix_rfl, Nat.le_refl _, id⟩

theorem trans {r'' : Registry} (h : Grows good r r') (h' : Grows good r' r'') :
    Grows good r r'' :=
  ⟨h.instances.trans h'.instances, Nat.le_trans h.identity h'.identity, h'.contexts ∘ h.contexts⟩

end Grows

theorem grows_fresh (good : LoadContext → Prop) (r : Registry) : Grows good r r.fresh.2 :=
  ⟨List.prefix_rfl, Nat.le_succ _, id⟩

theorem grows_make
    (hfields : r.ContextsAre good → ∀ c, fields.loadContext = some c → good c) :
    Grows good r (r.make fields).2 where
  instances := List.prefix_append _ _
  identity := Nat.le_refl _
  contexts := by
    intro h made hmade
    rcases List.mem_append.mp hmade with hmade | hmade
    · exact h made hmade
    · rw [List.mem_singleton.mp hmade]
      exact hfields h

/-- An update of one field makes an instance or makes none. -/
theorem grows_ite {P : Prop} [Decidable P]
    (hfields : r.ContextsAre good → ∀ c, fields.loadContext = some c → good c) :
    Grows good r (if P then (o, r) else r.make fields).2 := by
  split
  · exact .refl good r
  · exact grows_make hfields

/-! ### Updates -/

variable (good) (r) (o)

theorem grows_withDialect (d : Option Dialect) : Grows good r (r.withDialect o d).2 :=
  grows_ite fun h _ => h.of_read o

theorem grows_withOriginDescription (d : Option String) :
    Grows good r (r.withOriginDescription o d).2 :=
  grows_ite fun h _ => h.of_read o

theorem grows_withAllowMissing (b : Bool) : Grows good r (r.withAllowMissing o b).2 :=
  grows_ite fun h _ => h.of_read o

theorem grows_withIncluder (includer : Option Includer) :
    Grows good r (r.withIncluder o includer).2 :=
  grows_ite fun h _ => h.of_read o

theorem grows_withChain (primary secondary : Includer) :
    Grows good r (r.withChain o primary secondary).2 :=
  (grows_fresh good r).trans (grows_withIncluder good _ o _)

/-- An includer is put in front or behind: it is set alone, kept as it is there, or set in a
chain. -/
theorem grows_added (added : Includer) (order : Includer → Includer × Includer) :
    Grows good r (match (r.read o).includer with
      | none => r.withIncluder o (some added)
      | some current =>
        if current.identity = added.identity then (o, r)
        else r.withChain o (order current).1 (order current).2).2 := by
  split
  · exact grows_withIncluder good r o _
  · split
    · exact .refl good r
    · exact grows_withChain good r o _ _

theorem grows_clearForInclude : Grows good r (r.clearForInclude o).2 :=
  ((grows_withDialect good r o none).trans (grows_withOriginDescription good _ _ none)).trans
    (grows_withAllowMissing good _ _ true)

theorem grows_updateWith {α : Type} (setting : Option α)
    {update : Registry → OptionsId → α → OptionsId × Registry}
    (hupdate : ∀ r o a, Grows good r (update r o a).2) :
    Grows good r (r.updateWith o setting update).2 :=
  updateWith_cases (P := fun p => Grows good r p.2) r o setting (.refl good r) (hupdate r o)

theorem grows_applySettings (s : Settings) : Grows good r (r.applySettings o s).2 := by
  have hdialect := grows_updateWith good r o s.dialect fun r o d =>
    grows_withDialect good r o (some d)
  have horigin := fun r o => grows_updateWith good r o s.origin fun r o d =>
    grows_withOriginDescription good r o (some d)
  have hmissing := fun r o => grows_updateWith good r o s.allowMissing (grows_withAllowMissing good)
  exact (hdialect.trans (horigin _ _)).trans (hmissing _ _)

/-- **Loading settings sets no load context.** -/
theorem grows_load (now : Int) (logger : Log.Logger) (sources : List Source) :
    Grows good r (r.load now logger sources o).1.2 := by
  unfold load
  split
  · exact grows_applySettings good r o _
  · exact .refl good r

variable {good r o}

/-- **An update sets no other load context than the one that is given.** -/
theorem grows_update {now : Int} {u : Update Includer LoadContext} {p : OptionsId × Registry}
    (hu : ∀ c, u = .loadContext (some c) → good c) (h : r.update now o u = .ok p) :
    Grows good r p.2 := by
  cases u with
  | dialect value =>
    cases h
    exact grows_withDialect good r o value
  | originDescription value =>
    cases h
    exact grows_withOriginDescription good r o value
  | fallbackOriginDescription value =>
    cases h
    unfold withFallbackOriginDescription
    split
    · exact grows_withOriginDescription good r o value
    · exact .refl good r
  | allowMissing value =>
    cases h
    exact grows_withAllowMissing good r o value
  | includer value =>
    cases h
    exact grows_withIncluder good r o value
  | loadContext value =>
    cases h
    exact grows_ite fun _ c hc => hu c (congrArg Update.loadContext hc)
  | clear =>
    cases h
    exact grows_clearForInclude good r o
  | prepend value =>
    cases value with
    | none => cases h
    | some added =>
      obtain rfl := Except.ok.inj ((prependIncluder_some r o now added).symm.trans h)
      exact grows_added good r o added fun current => (added, current)
  | append value =>
    cases value with
    | none => cases h
    | some added =>
      obtain rfl := Except.ok.inj ((appendIncluder_some r o now added).symm.trans h)
      exact grows_added good r o added fun current => (current, added)

end Registry

end ConfigSource
