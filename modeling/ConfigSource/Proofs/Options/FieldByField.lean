import ConfigSource.Proofs.Options.CopyOnWrite
import ConfigSource.Session.State
import Mathlib.Data.List.DropRight
import Mathlib.Data.List.ReduceOption

/-!
# Runs of updates, field by field

A run of updates can be taken apart by fields. What stands in a field afterwards is decided by the
updates that are **about** it, whatever other updates they are mixed with; clearing is about three
fields at once.

* The dialect, the toleration of missing sources and the load context have the value that was
  **written last** (`ConfigSource.lastWritten`).
* The origin description is written as well, but where none is set a fallback is **latched**: the
  first one that comes along stays until the next write (`ConfigSource.describedBy`).
* The includer is a queue (`ConfigSource.World.leaves_of_follows`).

An update that is refused writes nothing, and the run goes on with the options that it had. The main
result is `ConfigSource.Registry.fields_after_run`. Its last part compares two runs that have the
same updates about every field, in the same order: they give options with the same five fields, so
updates of different fields can change places.
-/

namespace ConfigSource

/-! ### What an update writes -/

namespace Update

variable {ι κ : Type}

/-- The dialect that an update writes. -/
def dialect? : Update ι κ → Option (Option Dialect)
  | .dialect value => some value
  | .clear => some none
  | _ => none

/-- The origin description that an update writes, whatever is set. -/
def originDescription? : Update ι κ → Option (Option String)
  | .originDescription value => some value
  | .clear => some none
  | _ => none

/-- The origin description that an update has for options without one. -/
def fallbackDescription? : Update ι κ → Option String
  | .fallbackOriginDescription value => value
  | _ => none

/-- What an update writes about missing sources. -/
def allowMissing? : Update ι κ → Option Bool
  | .allowMissing value => some value
  | .clear => some true
  | _ => none

/-- The load context that an update writes. -/
def loadContext? : Update ι κ → Option (Option κ)
  | .loadContext value => some value
  | _ => none

/-- Whether an update is about a field. -/
def isAbout (f : Field) (u : Update ι κ) : Bool := decide (f ∈ u.fields)

end Update

/-- The value that was written last in a run, if one was written. -/
def lastWritten {υ α : Type} (writes? : υ → Option α) (run : List υ) (before : α) : α :=
  ((run.filterMap writes?).getLast?).getD before

/-- The origin description after a run: the one that was written last, or, if that is none, the
first fallback that came behind it. -/
def describedBy {ι κ : Type} (run : List (Update ι κ)) (before : Option String) : Option String :=
  (lastWritten Update.originDescription? run before).or
    ((run.rtakeWhile fun u => u.originDescription?.isNone).findSome? Update.fallbackDescription?)

section Runs

variable {υ α : Type} {ι κ : Type}

/-- Writing in turn leaves what was written last. -/
theorem lastWritten_eq_foldl (writes? : υ → Option α) (run : List υ) (before : α) :
    lastWritten writes? run before = run.foldl (fun was u => (writes? u).getD was) before := by
  induction run using List.reverseRecOn with
  | nil => rfl
  | append_singleton run u ih =>
    rw [List.foldl_concat, ← ih]
    cases h : writes? u <;> simp [lastWritten, List.filterMap_append, h]

/-- What was written last was there before or was written. -/
theorem lastWritten_cases (writes? : υ → Option α) (run : List υ) (before : α) :
    lastWritten writes? run before = before ∨
      ∃ u ∈ run, writes? u = some (lastWritten writes? run before) := by
  unfold lastWritten
  cases h : (run.filterMap writes?).getLast? with
  | none => exact Or.inl rfl
  | some written => exact Or.inr (List.mem_filterMap.mp (List.mem_of_getLast? h))

/-- A description that an update leaves in place of another one. -/
def Update.describe (was : Option String) (u : Update ι κ) : Option String :=
  match u.originDescription? with
  | some written => written
  | none => was.or u.fallbackDescription?

/-- Describing in turn leaves the last description that was written, or the first fallback behind
it. -/
theorem describedBy_eq_foldl (run : List (Update ι κ)) (before : Option String) :
    describedBy run before = run.foldl Update.describe before := by
  induction run using List.reverseRecOn with
  | nil => simp [describedBy, lastWritten]
  | append_singleton run u ih =>
    rw [List.foldl_concat, ← ih, Update.describe, describedBy, describedBy, lastWritten_eq_foldl,
      lastWritten_eq_foldl, List.foldl_concat, List.rtakeWhile_concat]
    cases h : u.originDescription? with
    | some written => simp
    | none => simp [Option.or_assoc]

end Runs

/-! ### One update of a run -/

namespace Registry

/-- Makes one update of a run; a refused one is passed over. -/
def advance (c : Composition) (now : Int) (p : OptionsId × Registry)
    (u : Update Includer LoadContext) : OptionsId × Registry :=
  match p.2.updateBy c now p.1 u with
  | .ok q => q
  | .error _ => p

/-- Makes updates one after the other, for includers that compose as they like. -/
def advanceAll (c : Composition) (now : Int) (p : OptionsId × Registry)
    (run : List (Update Includer LoadContext)) : OptionsId × Registry :=
  run.foldl (advance c now) p

/-- The fields of an instance in its registry. -/
abbrev fieldsOf (p : OptionsId × Registry) : Options := p.2.read p.1

/-- **For the includers of this library this is the run of updates.** -/
theorem advanceAll_chain (now : Int) (r : Registry) (o : OptionsId)
    (run : List (Update Includer LoadContext)) :
    advanceAll .chain now (o, r) run = r.updateAll now o run := by
  induction run generalizing r o with
  | nil => rfl
  | cons u run ih =>
    rw [updateAll, advanceAll, List.foldl_cons, advance, updateBy_chain]
    cases r.update now o u with
    | ok q => exact ih q.2 q.1
    | error e => exact ih r o

theorem advanceAll_concat (c : Composition) (now : Int) (p : OptionsId × Registry)
    (run : List (Update Includer LoadContext)) (u : Update Includer LoadContext) :
    advanceAll c now p (run ++ [u]) = advance c now (advanceAll c now p run) u :=
  List.foldl_concat ..

variable {c : Composition} {now : Int} {p q : OptionsId × Registry}
  {u : Update Includer LoadContext}

/-- **Only an includer that is put in front or behind can be refused.** -/
theorem fields_of_refused {e : Value} (h : p.2.updateBy c now p.1 u = .error e) :
    u.fields = [.includer] := by
  cases u with
  | prepend value => rfl
  | append value => rfl
  | _ => cases h

/-- **What one update of a run can do**: copy what it changes and set what it is to set, or nothing,
if it is refused for its includer. -/
theorem advance_cases (hp : p.2.Has p.1) (u : Update Includer LoadContext) :
    (Copies u.fields p (advance c now p u) ∧
        (Operation.update u).Sets now (fieldsOf p) (fieldsOf (advance c now p u))) ∨
      u.fields = [.includer] ∧ advance c now p u = p := by
  unfold advance
  cases h : p.2.updateBy c now p.1 u with
  | ok q => exact Or.inl (updateBy_spec hp h)
  | error e => exact Or.inr ⟨fields_of_refused h, rfl⟩

theorem has_advance (hp : p.2.Has p.1) (u : Update Includer LoadContext) :
    (advance c now p u).2.Has (advance c now p u).1 := by
  rcases advance_cases hp u with ⟨hcopies, -⟩ | ⟨-, hp'⟩
  · exact hcopies.has
  · rwa [hp']

/-- **An update keeps the fields that it is not about.** -/
theorem agree_advance (hp : p.2.Has p.1) {f : Field} (hf : f ∉ u.fields) :
    f.Agree (fieldsOf (advance c now p u)) (fieldsOf p) := by
  rcases advance_cases hp u with ⟨hcopies, -⟩ | ⟨-, hp'⟩
  · exact hcopies.keeps f hf
  · rw [hp']
    exact f.agree_rfl _

/-- **An update that is about another field than the includer sets what it is to set.** -/
theorem sets_advance (hp : p.2.Has p.1) (hu : u.fields ≠ [.includer]) :
    (Operation.update u).Sets now (fieldsOf p) (fieldsOf (advance c now p u)) := by
  rcases advance_cases hp u with ⟨-, hsets⟩ | ⟨hincluder, -⟩
  · exact hsets
  · exact absurd hincluder hu

/-! ### One field of a run -/

/-- What is written in place of a load context that is there: nothing if it is the same. -/
def putContext (was : Option LoadContext) (u : Update Includer LoadContext) :
    Option LoadContext :=
  match u.loadContext? with
  | some written =>
    if was.map LoadContext.identity = written.map LoadContext.identity then was else written
  | none => was

theorem dialect_advance (hp : p.2.Has p.1) (u : Update Includer LoadContext) :
    (fieldsOf (advance c now p u)).dialect = u.dialect?.getD (fieldsOf p).dialect := by
  cases u with
  | dialect value => exact sets_advance (u := .dialect value) hp (by simp [Update.fields])
  | clear => exact (sets_advance (u := .clear) hp (by simp [Update.fields])).1
  | _ => exact agree_advance (f := .dialect) hp (by simp [Update.fields])

theorem originDescription_advance (hp : p.2.Has p.1) (u : Update Includer LoadContext) :
    (fieldsOf (advance c now p u)).originDescription
      = Update.describe (fieldsOf p).originDescription u := by
  cases u with
  | originDescription value =>
    exact sets_advance (u := .originDescription value) hp (by simp [Update.fields])
  | fallbackOriginDescription value =>
    exact sets_advance (u := .fallbackOriginDescription value) hp (by simp [Update.fields])
  | clear => exact (sets_advance (u := .clear) hp (by simp [Update.fields])).2.1
  | _ =>
    refine Eq.trans ?_ (Option.or_none (o := (fieldsOf p).originDescription)).symm
    exact agree_advance (f := .originDescription) hp (by simp [Update.fields])

theorem allowMissing_advance (hp : p.2.Has p.1) (u : Update Includer LoadContext) :
    (fieldsOf (advance c now p u)).allowMissing = u.allowMissing?.getD (fieldsOf p).allowMissing := by
  cases u with
  | allowMissing value => exact sets_advance (u := .allowMissing value) hp (by simp [Update.fields])
  | clear => exact (sets_advance (u := .clear) hp (by simp [Update.fields])).2.2
  | _ => exact agree_advance (f := .allowMissing) hp (by simp [Update.fields])

/-- A load context of the same identity stays; any other one is written. -/
theorem loadContext_advance (hp : p.2.Has p.1) (u : Update Includer LoadContext) :
    (fieldsOf (advance c now p u)).loadContext = putContext (fieldsOf p).loadContext u := by
  cases u with
  | loadContext value =>
    change ((p.2.withLoadContext p.1 value).2.read (p.2.withLoadContext p.1 value).1).loadContext
      = ite _ _ _
    unfold withLoadContext
    split
    · rfl
    · rw [read_make]
  | _ => exact agree_advance (f := .loadContext) hp (by simp [Update.fields])

/-! ### The includer of a run -/

theorem KeepsIncluder.nextIdentity_eq {p q : OptionsId × Registry} (h : KeepsIncluder p q) :
    q.2.nextIdentity = p.2.nextIdentity := by
  induction h with
  | refl => rfl
  | make _ _ ih => exact ih

theorem keepsIncluder_advance (hu : Field.includer ∉ u.fields) :
    KeepsIncluder p (advance c now p u) := by
  cases u with
  | dialect value => exact keepsIncluder_withDialect p.2 p.1 value
  | originDescription value => exact keepsIncluder_withOriginDescription p.2 p.1 value
  | fallbackOriginDescription value =>
    exact keepsIncluder_withFallbackOriginDescription p.2 p.1 value
  | allowMissing value => exact keepsIncluder_withAllowMissing p.2 p.1 value
  | loadContext value => exact keepsIncluder_withLoadContext p.2 p.1 value
  | clear => exact keepsIncluder_clearForInclude p.2 p.1
  | includer value => exact absurd List.mem_cons_self hu
  | prepend value => exact absurd List.mem_cons_self hu
  | append value => exact absurd List.mem_cons_self hu

/-- Two instances agree in a field, and, if it is the includer, on the identity that a new one gets
there. -/
def Alike (f : Field) (p q : OptionsId × Registry) : Prop :=
  f.Agree (fieldsOf p) (fieldsOf q) ∧ (f = .includer → p.2.nextIdentity = q.2.nextIdentity)

namespace Alike

variable {f : Field} {s : OptionsId × Registry}

theorem refl (f : Field) (p : OptionsId × Registry) : Alike f p p :=
  ⟨f.agree_rfl _, fun _ => rfl⟩

theorem symm (h : Alike f p q) : Alike f q p := ⟨h.1.symm, fun hf => (h.2 hf).symm⟩

theorem trans (hpq : Alike f p q) (hqs : Alike f q s) : Alike f p s :=
  ⟨hpq.1.trans hqs.1, fun hf => (hpq.2 hf).trans (hqs.2 hf)⟩

end Alike

/-- Setting one includer in instances that have one and the same. -/
theorem alike_withIncluder (h : Alike .includer p q) (value : Option Includer) :
    Alike .includer (p.2.withIncluder p.1 value) (q.2.withIncluder q.1 value) := by
  have hset : (p.2.read p.1).includer = (q.2.read q.1).includer := h.1
  unfold withIncluder
  rw [hset]
  split
  · exact h
  · refine ⟨?_, h.2⟩
    rw [fieldsOf, fieldsOf, read_make, read_make]
    rfl

/-- Combining one includer with those of instances that have one and the same. -/
theorem alike_combine (h : Alike .includer p q) (added : Includer)
    (order : Includer → Includer × Includer) :
    ∃ p' q', p.2.combine .chain p.1 added order = .ok p' ∧
      q.2.combine .chain q.1 added order = .ok q' ∧ Alike .includer p' q' := by
  have hset : (p.2.read p.1).includer = (q.2.read q.1).includer := h.1
  have hnext : p.2.nextIdentity = q.2.nextIdentity := h.2 rfl
  unfold combine
  rw [hset]
  cases hcurrent : (q.2.read q.1).includer with
  | none => exact ⟨_, _, rfl, rfl, alike_withIncluder h (some added)⟩
  | some current =>
    by_cases hsame : current.identity = added.identity
    · exact ⟨p, q, if_pos hsame, if_pos hsame, h⟩
    · -- the identity that is handed out is that of the new chain in both
      have hfresh : Alike .includer (p.1, p.2.fresh.2) (q.1, q.2.fresh.2) :=
        ⟨h.1, fun _ => congrArg (· + 1) hnext⟩
      refine ⟨_, _, if_neg hsame, if_neg hsame, ?_⟩
      have hchain : (p.2.chain (order current).1 (order current).2).1
          = (q.2.chain (order current).1 (order current).2).1 := by
        simp only [chain, fresh, hnext]
      beta_reduce
      rw [hchain]
      exact alike_withIncluder hfresh _

/-- **An update does the same to a field of instances that agree in it.** -/
theorem alike_advance (hp : p.2.Has p.1) (hq : q.2.Has q.1) {f : Field}
    (hc : f = .includer → c = .chain) (h : Alike f p q) (u : Update Includer LoadContext) :
    Alike f (advance c now p u) (advance c now q u) := by
  cases f with
  | dialect =>
    have hset : (fieldsOf p).dialect = (fieldsOf q).dialect := h.1
    refine ⟨?_, fun hf => by cases hf⟩
    rw [Field.Agree, dialect_advance hp, dialect_advance hq, hset]
  | originDescription =>
    have hset : (fieldsOf p).originDescription = (fieldsOf q).originDescription := h.1
    refine ⟨?_, fun hf => by cases hf⟩
    rw [Field.Agree, originDescription_advance hp, originDescription_advance hq, hset]
  | allowMissing =>
    have hset : (fieldsOf p).allowMissing = (fieldsOf q).allowMissing := h.1
    refine ⟨?_, fun hf => by cases hf⟩
    rw [Field.Agree, allowMissing_advance hp, allowMissing_advance hq, hset]
  | loadContext =>
    have hset : (fieldsOf p).loadContext = (fieldsOf q).loadContext := h.1
    refine ⟨?_, fun hf => by cases hf⟩
    rw [Field.Agree, loadContext_advance hp, loadContext_advance hq, hset]
  | includer =>
    obtain rfl := hc rfl
    by_cases hu : Field.includer ∈ u.fields
    · cases u with
      | includer value => exact alike_withIncluder h value
      | prepend value =>
        cases value with
        | none => exact h
        | some added =>
          obtain ⟨p', q', hp', hq', halike⟩ := alike_combine h added fun current => (added, current)
          simpa [advance, updateBy, hp', hq'] using halike
      | append value =>
        cases value with
        | none => exact h
        | some added =>
          obtain ⟨p', q', hp', hq', halike⟩ := alike_combine h added fun current => (current, added)
          simpa [advance, updateBy, hp', hq'] using halike
      | _ => simp [Update.fields] at hu
    · have hkp : KeepsIncluder p (advance .chain now p u) := keepsIncluder_advance hu
      have hkq : KeepsIncluder q (advance .chain now q u) := keepsIncluder_advance hu
      refine ⟨?_, fun _ => ?_⟩
      · exact hkp.includer_eq.trans (Eq.trans h.1 hkq.includer_eq.symm)
      · rw [hkp.nextIdentity_eq, hkq.nextIdentity_eq, h.2 rfl]

/-- An update of other fields makes no difference to a field. -/
theorem alike_advance_of_not_about (hp : p.2.Has p.1) {f : Field} (hf : f ∉ u.fields) :
    Alike f (advance c now p u) p := by
  refine ⟨agree_advance hp hf, fun hincluder => ?_⟩
  rw [hincluder] at hf
  exact (keepsIncluder_advance hf).nextIdentity_eq

/-! ### Runs -/

theorem has_advanceAll (hp : p.2.Has p.1) (run : List (Update Includer LoadContext)) :
    (advanceAll c now p run).2.Has (advanceAll c now p run).1 := by
  induction run using List.reverseRecOn with
  | nil => exact hp
  | append_singleton run u ih =>
    rw [advanceAll_concat]
    exact has_advance ih u

/-- **What a run makes of a field is what its updates of that field make of it.** -/
theorem alike_advanceAll_filter {f : Field} (hc : f = .includer → c = .chain)
    (run : List (Update Includer LoadContext)) (hp : p.2.Has p.1) :
    Alike f (advanceAll c now p run) (advanceAll c now p (run.filter (·.isAbout f))) := by
  induction run using List.reverseRecOn with
  | nil => exact .refl f p
  | append_singleton run u ih =>
    rw [advanceAll_concat, List.filter_append]
    by_cases hu : f ∈ u.fields
    · rw [List.filter_cons_of_pos (by simpa [Update.isAbout] using hu), List.filter_nil,
        advanceAll_concat]
      exact alike_advance (has_advanceAll hp run) (has_advanceAll hp _) hc ih u
    · rw [List.filter_cons_of_neg (by simpa [Update.isAbout] using hu), List.filter_nil,
        List.append_nil]
      exact (alike_advance_of_not_about (has_advanceAll hp run) hu).trans ih

/-- **Runs with the same updates of a field agree in it.** -/
theorem agree_advanceAll {f : Field} (hc : f = .includer → c = .chain)
    {run run' : List (Update Includer LoadContext)}
    (h : run.filter (·.isAbout f) = run'.filter (·.isAbout f)) (hp : p.2.Has p.1) :
    f.Agree (fieldsOf (advanceAll c now p run)) (fieldsOf (advanceAll c now p run')) := by
  have hrun : Alike f (advanceAll c now p run) _ := alike_advanceAll_filter hc run hp
  rw [h] at hrun
  exact (hrun.trans (alike_advanceAll_filter hc run' hp).symm).1

/-- **A field goes through a run update by update.** -/
theorem foldl_advance {α : Type} (field : Options → α)
    (put : α → Update Includer LoadContext → α)
    (hput : ∀ {p : OptionsId × Registry}, p.2.Has p.1 → ∀ u,
      field (fieldsOf (advance c now p u)) = put (field (fieldsOf p)) u)
    (hp : p.2.Has p.1) (run : List (Update Includer LoadContext)) :
    field (fieldsOf (advanceAll c now p run)) = run.foldl put (field (fieldsOf p)) := by
  induction run using List.reverseRecOn with
  | nil => rfl
  | append_singleton run u ih =>
    rw [advanceAll_concat, List.foldl_concat, hput (has_advanceAll hp run), ih]

/-- **The load context that is set is the one that was written last**, as far as identities
tell. -/
theorem identity_foldl_putContext (run : List (Update Includer LoadContext))
    (before : Option LoadContext) :
    (run.foldl putContext before).map LoadContext.identity
      = (lastWritten Update.loadContext? run before).map LoadContext.identity := by
  rw [lastWritten_eq_foldl]
  induction run using List.reverseRecOn with
  | nil => rfl
  | append_singleton run u ih =>
    rw [List.foldl_concat, List.foldl_concat, putContext]
    cases u.loadContext? with
    | none => exact ih
    | some written =>
      dsimp only [Option.getD_some]
      split
      · assumption
      · rfl

/-- It was there before or was written. -/
theorem foldl_putContext_cases (run : List (Update Includer LoadContext))
    (before : Option LoadContext) :
    run.foldl putContext before = before ∨
      ∃ u ∈ run, u.loadContext? = some (run.foldl putContext before) := by
  induction run using List.reverseRecOn with
  | nil => exact Or.inl rfl
  | append_singleton run u ih =>
    rw [List.foldl_concat]
    have hlater : ∀ now, (∃ u ∈ run, u.loadContext? = some now) →
        ∃ v ∈ run ++ [u], v.loadContext? = some now := fun now ⟨v, hv, hwrites⟩ =>
      ⟨v, List.mem_append_left _ hv, hwrites⟩
    cases hu : u.loadContext? with
    | none =>
      rw [putContext, hu]
      exact ih.imp_right (hlater _)
    | some written =>
      rw [putContext, hu]
      dsimp only
      split
      · exact ih.imp_right (hlater _)
      · exact Or.inr ⟨u, List.mem_append_right _ List.mem_cons_self, hu⟩

/-- The load contexts that a run has to do with. -/
def contextsOf (run : List (Update Includer LoadContext)) (before : Option LoadContext) :
    List LoadContext :=
  before.toList ++ (run.filterMap Update.loadContext?).reduceOption

/-- **Identities tell load contexts apart.** -/
def ToldApart (contexts : List LoadContext) : Prop :=
  ∀ k ∈ contexts, ∀ k' ∈ contexts, k.identity = k'.identity → k = k'

/-- What was there or is written is one of these contexts. -/
theorem mem_contextsOf {run : List (Update Includer LoadContext)} {before : Option LoadContext}
    {k : LoadContext} (h : some k = before ∨ ∃ u ∈ run, u.loadContext? = some (some k)) :
    k ∈ contextsOf run before := by
  rw [contextsOf, List.mem_append, Option.mem_toList]
  rcases h with rfl | ⟨u, hu, hwrites⟩
  · exact Or.inl rfl
  · exact Or.inr (List.reduceOption_mem_iff.mpr (List.mem_filterMap.mpr ⟨u, hu, hwrites⟩))

/-- Where identities tell contexts apart, the context itself is the one that was written last. -/
theorem foldl_putContext_eq {run : List (Update Includer LoadContext)}
    {before : Option LoadContext} (h : ToldApart (contextsOf run before)) :
    run.foldl putContext before = lastWritten Update.loadContext? run before := by
  have hidentity := identity_foldl_putContext run before
  have hset := foldl_putContext_cases run before
  have hlast := lastWritten_cases Update.loadContext? run before
  generalize run.foldl putContext before = set at hidentity hset ⊢
  generalize lastWritten Update.loadContext? run before = last at hidentity hlast ⊢
  cases set with
  | none => exact (Option.map_eq_none_iff.mp hidentity.symm).symm
  | some k =>
    obtain ⟨k', rfl, hsame⟩ := Option.map_eq_some_iff.mp hidentity.symm
    rw [h k (mem_contextsOf hset) k' (mem_contextsOf hlast) hsame.symm]

/-- **A run of updates is a run in every field.** After any run of updates, of which those that are
refused for want of an includer are passed over,

* the dialect, the toleration of missing sources and the load context are the ones that were written
  last, clearing being a write of two of them, or those that were there;
* the origin description is the one that was written last, or that was there; if that is none, it is
  the first one that was offered as a fallback since, the empty one included;
* a load context counts as set exactly if the last one that was written is one.

Runs that have the same updates about a field, in the same order, agree in that field, whatever
their other updates are. For the includer this takes includers that make a new chain, for all other
fields it holds with any. With includers that make a new chain the run is the one that options know.
-/
theorem fields_after_run (c : Composition) (now : Int) {r : Registry} {o : OptionsId}
    (ho : r.Has o) (run : List (Update Includer LoadContext)) :
    let result := advanceAll c now (o, r) run
    let before := r.read o
    let after := result.2.read result.1
    let context := lastWritten Update.loadContext? run before.loadContext
    after.dialect = lastWritten Update.dialect? run before.dialect ∧
    after.allowMissing = lastWritten Update.allowMissing? run before.allowMissing ∧
    after.originDescription = describedBy run before.originDescription ∧
    after.loadContext.map LoadContext.identity = context.map LoadContext.identity ∧
    (ToldApart (contextsOf run before.loadContext) → after.loadContext = context) ∧
    (∀ (st : Session.State) (read : LoadContext), st.registry = result.2 →
      ((st.viewOptions result.1 read).hasLoadContext = true ↔ context ≠ none)) ∧
    (∀ (f : Field) (run' : List (Update Includer LoadContext)), (f = .includer → c = .chain) →
      run.filter (·.isAbout f) = run'.filter (·.isAbout f) →
        f.Agree after (fieldsOf (advanceAll c now (o, r) run'))) ∧
    (c = .chain → result = r.updateAll now o run) := by
  intro result before after context
  have hcontext : after.loadContext = run.foldl putContext before.loadContext :=
    foldl_advance Options.loadContext putContext loadContext_advance ho run
  have hidentity : after.loadContext.map LoadContext.identity
      = context.map LoadContext.identity := by
    rw [hcontext]
    exact identity_foldl_putContext run before.loadContext
  refine ⟨?_, ?_, ?_, hidentity, fun happart => ?_, fun st read hst => ?_, ?_, ?_⟩
  · rw [lastWritten_eq_foldl]
    exact foldl_advance Options.dialect _ dialect_advance ho run
  · rw [lastWritten_eq_foldl]
    exact foldl_advance Options.allowMissing _ allowMissing_advance ho run
  · rw [describedBy_eq_foldl]
    exact foldl_advance Options.originDescription _ originDescription_advance ho run
  · rw [hcontext]
    exact foldl_putContext_eq happart
  · have hview : (st.viewOptions result.1 read).hasLoadContext = after.loadContext.isSome := by
      rw [Session.State.viewOptions, hst]
    rw [hview, ← Option.isSome_map (f := LoadContext.identity), hidentity, Option.isSome_map,
      Option.isSome_iff_ne_none]
  · intro f run' hc hfilter
    exact agree_advanceAll hc hfilter ho
  · rintro rfl
    exact advanceAll_chain now r o run

/-- Clearing lets a fallback in again, of which the first counts although it is empty; a call
without an includer is refused in between. -/
theorem fields_after_run_cleared :
    let r : Registry := ⟨[.defaults], 0⟩
    let run : List (Update Includer LoadContext) :=
      [.originDescription (some "a"), .dialect (some .json), .clear, .prepend none,
        .fallbackOriginDescription (some ""), .fallbackOriginDescription (some "b")]
    let after := fieldsOf (advanceAll .chain 0 (⟨0⟩, r) run)
    r.Has ⟨0⟩ ∧ after.originDescription = some "" ∧ after.dialect = none := by
  intro r run after
  have hhas : r.Has ⟨0⟩ := Nat.zero_lt_one
  obtain ⟨hdialect, -, hdescription, -⟩ := fields_after_run .chain 0 hhas run
  exact ⟨hhas, hdescription, hdialect⟩

end Registry

end ConfigSource
