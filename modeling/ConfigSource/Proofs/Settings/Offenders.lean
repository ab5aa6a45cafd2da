import ConfigSource.Proofs.Settings.LastGiven
import ConfigSource.Proofs.Settings.Protocol
import ConfigSource.Proofs.Settings.Rules

/-!
# Whom a rejection names

Settings are rejected if some merged value breaks the rule of its key. The rejection names these
**offenders** (`ConfigSource.Merged.offenders`): each of them once, in the order of the checks, and
no other key; and beside each key that a source gave a value it names the last source that did so
(`ConfigSource.NamesOffenders`).

Three steps lie between the rules and the names. The check collects issues, and a key may have
several; the issues are mapped to their keys, of which repetitions are dropped
(`ConfigSource.offendingKeys_eq`); and the sources are looked up in the provenance, which was
written while merging (`ConfigSource.sourceOf_offender`).

All of this takes that there are issues. Where the origin description is asked for a length that has
no text, the check fails, and nobody is named, whatever the other keys are. That is the one
exception (`ConfigSource.namesOffenders_iff`).
-/

namespace ConfigSource

/-! ### What is asked of a rejection -/

/-- **The offenders**: the settings whose merged values break their rules, in the order in which
they are checked. -/
def Merged.offenders (m : Merged) : List SettingKey :=
  SettingKey.all.filter fun k => ¬k.Allows (m.lookup k.name)

/-- The code of an error of this library. -/
def Value.errorCode? : Value → Option String
  | .configError head _ _ => some head.code
  | _ => none

/-- A source is the **last** to give a key a value. -/
def IsLastToGive (sources : List Source) (s : Source) (key : String) (v : Value) : Prop :=
  ∃ before after, sources = before ++ s :: after ∧ s.given? key = some v ∧
    ∀ s' ∈ after, s'.given? key = none

/-- **An outcome of loading names the offenders** among merged settings. -/
structure Merged.Names (m : Merged) (sources : List Source) (outcome : Except Value OptionsId) :
    Prop where
  /-- There is a rejection exactly if there is an offender. -/
  rejects_iff : (∃ e, outcome = .error e ∧ e.errorCode? = some invalidSettingsCode) ↔
    ∃ k : SettingKey, ¬k.Allows (m.lookup k.name)
  /-- It names the offenders and beside each a source: if the key was given a value, that is the
  last source to do so, and the value is the one that broke the rule. -/
  named : ∀ e, outcome = .error e → ∃ (head : ErrorHead) (names : List String),
    e = .configError head [("keys", .list (m.offenders.map fun k => .text k.name)),
      ("sources", .list (names.map .text))] .undefined ∧
    names.length = m.offenders.length ∧
    ∀ (i : Nat) (k : SettingKey), m.offenders[i]? = some k →
      (∃ s ∈ sources, (s.given? k.name).isSome = true) →
        ∃ s, IsLastToGive sources s k.name (m.lookup k.name) ∧ names[i]? = some s.name

/-- **Loading names the offenders**, over every base, with every logger and at every instant that
has a text. -/
def NamesOffenders (sources : List Source) : Prop :=
  ∀ (r : Registry) (now : Int) (logger : Log.Logger) (base : OptionsId) (m : Merged),
    Calendar.isValid now = true → (Merged.ofSources sources).outcome = .ok m →
      m.Names sources (r.load now logger sources base).1.1

/-! ### Keys -/

/-- Lists that repeat one item each, joined without repetitions. -/
theorem eraseDups_flatMap {α β : Type} [BEq β] [LawfulBEq β] {f : α → List β} {g : α → β}
    (hg : Function.Injective g) (hf : ∀ a, ∀ b ∈ f a, b = g a) {l : List α} (hl : l.Nodup) :
    (l.flatMap f).eraseDups = (l.filter fun a => f a ≠ []).map g := by
  induction l with
  | nil => rfl
  | cons a l ih =>
    obtain ⟨ha, hl⟩ := List.nodup_cons.mp hl
    -- what stands in the rest is no repetition of `g a`
    have hrest : (l.flatMap f).removeAll (f a) = l.flatMap f := by
      refine List.filter_eq_self.mpr fun b hb => ?_
      obtain ⟨a', ha', hb'⟩ := List.mem_flatMap.mp hb
      have hne : b ∉ f a := by
        intro hba
        rw [hf a' b hb'] at hba
        exact ha (hg (hf a _ hba) ▸ ha')
      simpa using hne
    have hfirst : (f a).eraseDups = if f a = [] then [] else [g a] := by
      cases hfa : f a with
      | nil => rfl
      | cons b bs =>
        have hall : ∀ b' ∈ b :: bs, b' = g a := hfa ▸ hf a
        have hdrop : bs.filter (fun b' => !b' == b) = [] := by
          refine List.filter_eq_nil_iff.mpr fun b' hb' => ?_
          rw [hall b' (List.mem_cons_of_mem _ hb'), hall b List.mem_cons_self]
          simp
        rw [List.eraseDups_cons, hdrop, hall b List.mem_cons_self, if_neg (by simp)]
        rfl
    rw [List.flatMap_cons, List.eraseDups_append, hrest, ih hl, hfirst]
    by_cases hfa : f a = [] <;> simp [hfa]

/-- **A rejection lists the keys that have an issue**, each once. -/
theorem offendingKeys_flatMap (look : String → Value) :
    offendingKeys (SettingKey.all.flatMap fun k => k.issues (look k.name))
      = (SettingKey.all.filter fun k => k.issues (look k.name) ≠ []).map SettingKey.name := by
  have hkeys : ∀ k : SettingKey,
      (k.issues (look k.name)).filterMap Issue.key? = (k.issues (look k.name)).map fun _ => k := by
    intro k
    rw [← List.filterMap_eq_map]
    exact List.filterMap_congr fun i hi => SettingKey.key?_of_mem_issues hi
  unfold offendingKeys
  simp only [List.filterMap_flatMap, hkeys, List.map_flatMap, List.map_map]
  rw [eraseDups_flatMap SettingKey.name_injective (by simp) (by decide)]
  simp

/-- **The keys of a rejection are those of the offenders.** -/
theorem offendingKeys_eq {m : Merged} {broken : List Issue}
    (hbroken : broken = SettingKey.all.flatMap fun k => k.issues (m.lookup k.name))
    (hissues : ∀ k : SettingKey, k.issues (m.lookup k.name) ≠ [] ↔ ¬k.Allows (m.lookup k.name)) :
    offendingKeys broken = m.offenders.map SettingKey.name := by
  rw [hbroken, offendingKeys_flatMap, Merged.offenders]
  simp only [hissues]

/-! ### Sources -/

/-- A key that some source gives a value has a last source that does so. -/
theorem exists_isLastToGive {sources : List Source} {key : String}
    (h : ∃ s ∈ sources, (s.given? key).isSome = true) :
    ∃ s v, IsLastToGive sources s key v := by
  obtain ⟨s, hs⟩ := Option.isSome_iff_exists.mp
    (List.find?_isSome.mpr (by simpa using h) :
      (sources.reverse.find? fun s => (s.given? key).isSome).isSome = true)
  obtain ⟨hgives, after, before, hsplit, hafter⟩ := List.find?_eq_some_iff_append.mp hs
  obtain ⟨v, hv⟩ := Option.isSome_iff_exists.mp hgives
  refine ⟨s, v, before.reverse, after.reverse, ?_, hv, fun s' hs' => ?_⟩
  · rw [← List.reverse_reverse sources, hsplit]
    simp
  · simpa using hafter s' (List.mem_reverse.mp hs')

/-- **The last source to give a key a value is its source**, and the value is the merged one. -/
theorem sourceOf_offender {sources : List Source} {s : Source} {k : SettingKey} {v : Value}
    (h : IsLastToGive sources s k.name v) :
    (Merged.empty.replay (rawSettings sources)).sourceOf k.name = s.name ∧
      (Merged.empty.replay (rawSettings sources)).lookup k.name = v := by
  obtain ⟨before, after, rfl, hgiven, hafter⟩ := h
  refine ⟨?_, lookup_of_last hgiven hafter before⟩
  rw [Merged.sourceOf, provenance_of_last hgiven hafter]
  rfl

/-! ### The exact condition -/

/-- **A length without a text leaves the offenders unnamed.** -/
theorem not_namesOffenders {sources : List Source} (h : LengthWithoutText sources) :
    ¬NamesOffenders sources := by
  intro hnames
  have hread := readSettings_of_lengthWithoutText h 0 .null
  obtain ⟨m, hm, -⟩ := h
  have hload : (Registry.empty.load 0 .null sources ⟨0⟩).1.1 = .error .withoutText := by
    simp only [Registry.load, hread]
  obtain ⟨head, names, he, -⟩ := (hnames .empty 0 .null ⟨0⟩ m (by decide) hm).named _ hload
  cases he

section Readable

variable {sources : List Source} {m : Merged} {now : Int} {logger : Log.Logger}
  (hm : (Merged.ofSources sources).outcome = .ok m)

include hm

/-- Settings without an offender are accepted. -/
theorem names_of_allowed (h : ∀ k : SettingKey, k.Allows (m.lookup k.name)) (r : Registry)
    (base : OptionsId) : m.Names sources (r.load now logger sources base).1.1 := by
  obtain ⟨s, hs⟩ := Settings.exists_check_iff.mpr h
  have hread := readSettings_of_outcome hm now logger
  rw [hs] at hread
  simp only [Registry.load, hread]
  refine ⟨iff_of_false ?_ (not_exists_not.mpr h), fun e he => ?_⟩
  · rintro ⟨e, he, -⟩
    cases he
  · cases he

/-- Settings with an offender are rejected, and all offenders are named. -/
theorem names_of_offender (hvalid : Calendar.isValid now = true)
    (hlength : ¬(m.lookup SettingKey.origin.name).HasUnreadableLength)
    (h : ∃ k : SettingKey, ¬k.Allows (m.lookup k.name)) (r : Registry) (base : OptionsId) :
    m.Names sources (r.load now logger sources base).1.1 := by
  obtain ⟨-, rfl⟩ := Merged.outcome_ofSources_iff.mp hm
  obtain ⟨broken, hcheck, hbroken, hissues⟩ := Settings.check_of_not_allowed hlength h
  have hkeys := offendingKeys_eq hbroken hissues
  have htime : Calendar.isoText? now = some _ := if_pos hvalid
  have hread := readSettings_of_outcome hm now logger
  rw [hcheck] at hread
  simp only [onRefusal_issues htime] at hread
  simp only [Registry.load, hread]
  refine ⟨iff_of_true ⟨_, rfl, rfl⟩ h, fun e he => ?_⟩
  obtain rfl := Except.error.inj he
  refine ⟨rejectionHead now broken,
    (Merged.empty.replay (rawSettings sources)).offenders.map fun k =>
      (Merged.empty.replay (rawSettings sources)).sourceOf k.name, ?_, by simp, ?_⟩
  · rw [rejection_eq, rejectionContext, hkeys]
    simp [Function.comp_def]
  · intro i k hk hgiven
    obtain ⟨s, v, hlast⟩ := exists_isLastToGive hgiven
    obtain ⟨hsource, hvalue⟩ := sourceOf_offender hlast
    exact ⟨s, hvalue ▸ hlast, by rw [List.getElem?_map, hk, Option.map_some, hsource]⟩

end Readable

/-- **Loading names the offenders exactly if no length without a text is asked for.** Where one is,
the failure of the check is thrown, and no key and no source is named. -/
theorem namesOffenders_iff (sources : List Source) :
    (NamesOffenders sources ↔ ¬LengthWithoutText sources) ∧
      (LengthWithoutText sources →
        ∀ (r : Registry) (now : Int) (logger : Log.Logger) (base : OptionsId),
          r.load now logger sources base = ((.error .withoutText, r), [])) := by
  refine ⟨⟨fun hnames h => not_namesOffenders h hnames, fun hreadable => ?_⟩, ?_⟩
  · intro r now logger base m hvalid hm
    by_cases h : ∃ k : SettingKey, ¬k.Allows (m.lookup k.name)
    · exact names_of_offender hm hvalid (fun hlength => hreadable ⟨m, hm, hlength⟩) h r base
    · exact names_of_allowed hm (not_exists_not.mp h) r base
  · intro h r now logger base
    simp only [Registry.load, readSettings_of_lengthWithoutText h]

/-- **A dialect that nobody knows is not named** beside an origin description whose length is a
table. -/
theorem not_namesOffenders_of_nestedLength :
    ¬NamesOffenders [.object "object" [("SYNTAX", .text "yaml"),
      ("ORIGIN", .record [("length", .record [("toString", .number (.ofInt 1))])])]] := by
  refine not_namesOffenders ⟨_, Merged.outcome_ofSources_iff.mpr ⟨by simp [Source.load], rfl⟩, ?_⟩
  rw [rawSettings_cons, Source.rawSettings_object _ (by simp; decide)]
  exact ⟨_, _, rfl, rfl, rfl⟩

end ConfigSource
