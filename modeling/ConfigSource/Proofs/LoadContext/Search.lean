import ConfigSource.LoadContext
import ConfigSource.Proofs.Path.Names

/-!
# Searching roots

The search of a list of roots is a **first match**. A root *ends the search* if its candidate lies
inside it and the file test of the candidate finds a file or is refused; the first root that does so
decides the answer, and nothing behind it is looked at.

* A root makes a file test exactly if its candidate lies inside it, by names
  (`ConfigSource.isConfined_iff`). A text that merely begins like the root does not, and a name that
  leaves the root and comes back does.
* The tests of a search are listed in its probes, and no other test has a say in it
  (`ConfigSource.search_congr`).
* `ConfigSource.LoadContext.locate_ofRoots`: the whole of what a context over directories does.
-/

open ConfigSource.Path

namespace ConfigSource

/-- The search ends at a root: the candidate lies inside it, and its test is not passed over. -/
def EndsSearch (stat : String → Stat) (resource root : String) : Prop :=
  IsInside root (candidate root resource) ∧
    (stat (candidate root resource) = .file ∨ ∃ e, stat (candidate root resource) = .failed e)

/-- The test of a path decides the answer: the path, if a file is found, or the refusal. -/
def Decides (stat : String → Stat) (path : String)
    (answer : Except SystemError (Option String)) : Prop :=
  stat path = .file ∧ answer = .ok (some path) ∨ ∃ e, stat path = .failed e ∧ answer = .error e

/-- The candidates that lie inside their roots, in the order of the roots. -/
def candidatesInside (resource : String) (roots : List String) : List String :=
  (roots.filter fun root => decide (IsInside root (candidate root resource))).map
    fun root => candidate root resource

theorem candidatesInside_append (resource : String) (roots roots' : List String) :
    candidatesInside resource (roots ++ roots')
      = candidatesInside resource roots ++ candidatesInside resource roots' := by
  rw [candidatesInside, List.filter_append, List.map_append]
  rfl

theorem candidatesInside_singleton_of_inside {resource root : String}
    (h : IsInside root (candidate root resource)) :
    candidatesInside resource [root] = [candidate root resource] := by
  simp [candidatesInside, h]

theorem candidatesInside_singleton_of_not_inside {resource root : String}
    (h : ¬IsInside root (candidate root resource)) : candidatesInside resource [root] = [] := by
  simp [candidatesInside, h]

/-! ### Confinement -/

theorem isName_of_mem_names_candidate (start directory resource : String) :
    ∀ n ∈ names (candidate (resolve start directory) resource), IsName n := by
  obtain ⟨s, hs⟩ := resolve_eq_place start directory
  rw [hs]
  exact isName_of_mem_names_join (isAbsolute_place s) _

/-- **A root is searched for a name exactly if the candidate lies inside it.** -/
theorem isConfined_iff (start directory resource : String) :
    isConfined (resolve start directory) resource = true ↔
      IsInside (resolve start directory) (candidate (resolve start directory) resource) := by
  have hcandidate := isName_of_mem_names_candidate start directory resource
  obtain ⟨s, hs⟩ := resolve_eq_place start directory
  rw [hs] at hcandidate ⊢
  exact isBelow_between_iff isName_of_mem_names_place hcandidate

/-- A name may leave a root and come back, but not into a directory beside it. -/
example : isConfined "/w/first" "../first/x" = true ∧
    isConfined "/w/first" "../first-x/x" = false := by
  decide +kernel

/-! ### First match -/

/-- The roots of a search agree on confinement: what the test of texts says is what the names
say. -/
def IsSearchable (resource : String) (roots : List String) : Prop :=
  ∀ root ∈ roots, isConfined root resource = true ↔ IsInside root (candidate root resource)

/-- **What one root does to a search**: it ends it, or it adds its test, if it makes one, to the
search of the roots behind it. -/
theorem search_cons_cases (stat : String → Stat) {resource root : String} (roots : List String)
    (h : isConfined root resource = true ↔ IsInside root (candidate root resource)) :
    (EndsSearch stat resource root ∧
        (search stat resource (root :: roots)).probes = candidatesInside resource [root] ∧
        Decides stat (candidate root resource) (search stat resource (root :: roots)).outcome) ∨
      ¬EndsSearch stat resource root ∧
        search stat resource (root :: roots)
          = ⟨candidatesInside resource [root] ++ (search stat resource roots).probes,
              (search stat resource roots).outcome⟩ := by
  by_cases hin : IsInside root (candidate root resource)
  · have hconf := h.mpr hin
    rw [candidatesInside_singleton_of_inside hin, List.singleton_append]
    cases hstat : stat (candidate root resource) with
    | file =>
      refine Or.inl ⟨⟨hin, Or.inl hstat⟩, ?_, Or.inl ⟨hstat, ?_⟩⟩ <;> simp [search, hconf, hstat]
    | failed e =>
      refine Or.inl ⟨⟨hin, Or.inr ⟨e, hstat⟩⟩, ?_, Or.inr ⟨e, hstat, ?_⟩⟩ <;>
        simp [search, hconf, hstat]
    | other =>
      refine Or.inr ⟨?_, ?_⟩ <;> simp [EndsSearch, search, Search.after, hconf, hstat]
    | missing =>
      refine Or.inr ⟨?_, ?_⟩ <;> simp [EndsSearch, search, Search.after, hconf, hstat]
  -- outside, no test is made, whatever the test would say
  · have hconf : ¬isConfined root resource = true := fun hc => hin (h.mp hc)
    rw [candidatesInside_singleton_of_not_inside hin, List.nil_append]
    refine Or.inr ⟨fun hends => hin hends.1, ?_⟩
    rw [search, if_neg hconf]

/-- **A search is a first match.** -/
theorem search_cases (stat : String → Stat) {resource : String} {roots : List String}
    (h : IsSearchable resource roots) :
    (∃ before root after, roots = before ++ root :: after ∧
        (∀ r ∈ before, ¬EndsSearch stat resource r) ∧ EndsSearch stat resource root ∧
        (search stat resource roots).probes = candidatesInside resource (before ++ [root]) ∧
        Decides stat (candidate root resource) (search stat resource roots).outcome) ∨
      (∀ r ∈ roots, ¬EndsSearch stat resource r) ∧
        (search stat resource roots).probes = candidatesInside resource roots ∧
        (search stat resource roots).outcome = .ok none := by
  induction roots with
  | nil => exact Or.inr ⟨fun r hr => absurd hr List.not_mem_nil, rfl, rfl⟩
  | cons root roots ih =>
    rcases search_cons_cases stat roots (h root List.mem_cons_self) with
      ⟨hends, hprobes, hdecides⟩ | ⟨hends, hsearch⟩
    · exact Or.inl ⟨[], root, roots, rfl, fun r hr => absurd hr List.not_mem_nil, hends, hprobes,
        hdecides⟩
    · rw [hsearch]
      -- the root is put before those that the search of the others splits off
      rcases ih fun r hr => h r (List.mem_cons_of_mem _ hr) with
        ⟨before, last, after, rfl, hbefore, hlast, hprobes, hdecides⟩ | ⟨hall, hprobes, hnone⟩
      · refine Or.inl ⟨root :: before, last, after, rfl, List.forall_mem_cons.mpr ⟨hends, hbefore⟩,
          hlast, ?_, hdecides⟩
        rw [hprobes, ← candidatesInside_append, List.singleton_append, List.cons_append]
      · refine Or.inr ⟨List.forall_mem_cons.mpr ⟨hends, hall⟩, ?_, hnone⟩
        rw [hprobes, ← candidatesInside_append, List.singleton_append]

/-- What is found is the candidate of the first root at which the search ends. -/
theorem exists_split_of_found {stat : String → Stat} {resource path : String} {roots : List String}
    (h : IsSearchable resource roots)
    (hfound : (search stat resource roots).outcome = .ok (some path)) :
    ∃ before root after, roots = before ++ root :: after ∧
      (∀ r ∈ before, ¬EndsSearch stat resource r) ∧ EndsSearch stat resource root ∧
      stat path = .file ∧ path = candidate root resource := by
  rcases search_cases stat h with
    ⟨before, root, after, rfl, hbefore, hends, -, ⟨hstat, hok⟩ | ⟨e, -, herror⟩⟩ | ⟨-, -, hnone⟩
  · rw [hfound] at hok
    obtain rfl : path = candidate root resource := by simpa using hok
    exact ⟨before, root, after, rfl, hbefore, hends, hstat, rfl⟩
  · rw [hfound] at herror
    exact absurd herror (by simp)
  · rw [hfound] at hnone
    exact absurd hnone (by simp)

theorem exists_root_of_found {stat : String → Stat} {resource path : String} {roots : List String}
    (h : IsSearchable resource roots)
    (hfound : (search stat resource roots).outcome = .ok (some path)) :
    ∃ root ∈ roots, EndsSearch stat resource root ∧ stat path = .file ∧
      path = candidate root resource := by
  obtain ⟨before, root, after, rfl, -, hends, hstat, hpath⟩ := exists_split_of_found h hfound
  exact ⟨root, List.mem_append_right _ List.mem_cons_self, hends, hstat, hpath⟩

/-- **Only the listed tests have a say**: a search is the same for any answers to the others. -/
theorem search_congr {stat stat' : String → Stat} {resource : String} {roots : List String}
    (h : ∀ path ∈ (search stat resource roots).probes, stat' path = stat path) :
    search stat' resource roots = search stat resource roots := by
  induction roots with
  | nil => rfl
  | cons root roots ih =>
    unfold search at h ⊢
    split
    · next hconf =>
      rw [if_pos hconf] at h
      cases hstat : stat (candidate root resource) with
      | file | failed =>
        simp only [hstat] at h
        rw [h _ List.mem_cons_self, hstat]
      | other | missing =>
        simp only [hstat] at h
        rw [h _ List.mem_cons_self, hstat]
        exact congrArg (Search.after _) (ih fun p hp => h p (List.mem_cons_of_mem _ hp))
    · next hconf =>
      rw [if_neg hconf] at h
      exact ih h

namespace LoadContext

/-- **A context over directories searches them for the first match, and each within its bounds.**
The answer is decided by the first root at which the search ends; there is none if it ends at no
root. The tests that are made are those of the candidates inside the roots up to there, in the order
of the roots. What is found is a file inside its root, and it is spelled without `.` and `..`. -/
theorem locate_ofRoots (identity : Identity) (name start : String) (directories : List String)
    (stat : String → Stat) (resource : String) :
    let roots := directories.map (Path.resolve start)
    let answer := (ofRoots identity name start directories).locate stat resource
    let probes := (search stat resource roots).probes
    ((∃ before root after, roots = before ++ root :: after ∧
        (∀ r ∈ before, ¬EndsSearch stat resource r) ∧ EndsSearch stat resource root ∧
        probes = candidatesInside resource (before ++ [root]) ∧
        Decides stat (candidate root resource) answer) ∨
      (∀ r ∈ roots, ¬EndsSearch stat resource r) ∧
        probes = candidatesInside resource roots ∧ answer = .ok none) ∧
    (∀ stat', (∀ path ∈ probes, stat' path = stat path) →
      (ofRoots identity name start directories).locate stat' resource = answer) ∧
    ∀ path, answer = .ok (some path) → stat path = .file ∧ (∀ n ∈ names path, IsName n) ∧
      ∃ root ∈ roots, path = candidate root resource ∧ IsInside root path := by
  intro roots answer probes
  have hsearchable : IsSearchable resource roots := by
    intro root hroot
    obtain ⟨directory, -, rfl⟩ := List.mem_map.mp hroot
    exact isConfined_iff start directory resource
  have hcases := search_cases stat hsearchable
  refine ⟨hcases, fun stat' hagree => congrArg Search.outcome (search_congr hagree), ?_⟩
  intro path hfound
  obtain ⟨root, hroot, hends, hstat, rfl⟩ := exists_root_of_found hsearchable hfound
  obtain ⟨directory, -, rfl⟩ := List.mem_map.mp hroot
  exact ⟨hstat, isName_of_mem_names_candidate start directory resource, _, hroot, rfl, hends.1⟩

end LoadContext

end ConfigSource
