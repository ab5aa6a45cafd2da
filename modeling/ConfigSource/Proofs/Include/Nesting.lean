import ConfigSource.Include
import ConfigSource.Proofs.Path.Directory

/-!
# Names through nested includes

A source names what it includes as seen from its own place, what it includes does so again, and so
on (`ConfigSource.Registry.includedAt`). Following such a chain source by source leads to the place
that the whole chain of names means at once: the directories of the names, one behind the other,
and the last name (`ConfigSource.Registry.foldl_includedAt`). Normalizing at every step and
normalizing in the end are the same, whether `..` climbs above a relative start or is swallowed at
the root.

Every name but the last has to end in a plain name, that of the file that is read; behind `.` or
`..` there is none.
-/

namespace ConfigSource

namespace Registry

/-- Where the source is that a source at `location` includes under a name. -/
def includedAt (r : Registry) (o : OptionsId) (location : Option String) (name : String) :
    Option String :=
  Path.relativeTo (r.includeContext o location).1.location name

variable {r : Registry} {o : OptionsId}

/-- A relative name is joined to the directory of the source that mentions it. -/
theorem includedAt_some {name : String} (h : Path.isAbsolute name = false) (place : String) :
    r.includedAt o (some place) name = some (Path.join (Path.dirname place) name) := by
  simp [includedAt, includeContext, Path.relativeTo, h]

/-- From a source that has a place, relative names lead to places. -/
theorem isSome_foldl_includedAt {names : List String}
    (h : ∀ name ∈ names, Path.isAbsolute name = false) (place : String) :
    (names.foldl (r.includedAt o) (some place)).isSome := by
  induction names generalizing place with
  | nil => rfl
  | cons name names ih =>
    rw [List.foldl_cons, includedAt_some (h name List.mem_cons_self)]
    exact ih (fun other hother => h other (List.mem_cons_of_mem _ hother)) _

/-- Following names, of which all but the last end in a plain one. -/
theorem foldl_includedAt_append {names : List String} {last : String}
    (hnames : ∀ name ∈ names, Path.isAbsolute name = false ∧ Path.EndsInName name)
    (hlast : Path.isAbsolute last = false ∧ last ≠ "") (place : String) :
    (names ++ [last]).foldl (r.includedAt o) (some place)
      = some (Path.joinAll (Path.dirname place :: (names.map Path.dirname ++ [last]))) := by
  induction names generalizing place with
  | nil =>
    have hne : ∀ path ∈ [Path.dirname place, last], path ≠ "" := by
      simp [Path.dirname_ne_empty, hlast.2]
    rw [List.nil_append, List.foldl_cons, includedAt_some hlast.1,
      Path.join_eq_normalize (Path.dirname_ne_empty place) hlast.2,
      ← Path.joinAll_eq_normalize hne]
    rfl
  | cons name names ih =>
    have hname := hnames name List.mem_cons_self
    have hdirnames : ∀ path ∈ names.map Path.dirname, path ≠ "" := fun path hpath => by
      obtain ⟨other, -, rfl⟩ := List.mem_map.mp hpath
      exact Path.dirname_ne_empty other
    rw [List.cons_append, List.foldl_cons, includedAt_some hname.1,
      ih fun other hother => hnames other (List.mem_cons_of_mem _ hother),
      Path.joinAll_dirname_join (Path.dirname_ne_empty place) hname.2 hdirnames hlast.2]
    rfl

/-- **Following a chain of includes is resolving its names at once.** From a source that has a
place, names that are relative and not empty lead to a place at every step. If all but the last end
in a plain name, the place that they lead to is that of their directories, joined behind that of
the source, and the last name. -/
theorem foldl_includedAt (r : Registry) (o : OptionsId) (location : String) {names : List String}
    {last : String}
    (hrelative : ∀ name ∈ names ++ [last], Path.isAbsolute name = false ∧ name ≠ "")
    (hends : ∀ name ∈ names, Path.EndsInName name) :
    (∀ walked, walked <+: names ++ [last] →
      (walked.foldl (r.includedAt o) (some location)).isSome) ∧
    (names ++ [last]).foldl (r.includedAt o) (some location)
      = some (Path.joinAll (Path.dirname location :: (names.map Path.dirname ++ [last]))) := by
  refine ⟨fun walked hwalked => ?_, ?_⟩
  · exact isSome_foldl_includedAt
      (fun name hname => (hrelative name (hwalked.mem hname)).1) location
  · refine foldl_includedAt_append (fun name hname => ⟨?_, hends name hname⟩) ?_ location
    · exact (hrelative name (List.mem_append_left _ hname)).1
    · exact hrelative last (List.mem_append_right _ List.mem_cons_self)

/-- From `conf//app.conf`, climbing above the start. -/
theorem foldl_includedAt_climbing :
    (∀ name ∈ ["../../a//b/", "../c/./d.conf"] ++ ["../../../e/"],
        Path.isAbsolute name = false ∧ name ≠ "") ∧
      (∀ name ∈ ["../../a//b/", "../c/./d.conf"], Path.EndsInName name) ∧
      (["../../a//b/", "../c/./d.conf"] ++ ["../../../e/"]).foldl (Registry.empty.includedAt ⟨0⟩)
        (some "conf//app.conf") = some "../../../e/" := by
  have hrelative : ∀ name ∈ ["../../a//b/", "../c/./d.conf"] ++ ["../../../e/"],
      Path.isAbsolute name = false ∧ name ≠ "" := by
    decide
  have hends : ∀ name ∈ ["../../a//b/", "../c/./d.conf"], Path.EndsInName name := by
    simp only [List.forall_mem_cons, List.not_mem_nil, false_imp_iff, implies_true, and_true]
    exact ⟨⟨['b'], by decide, by decide, by decide⟩,
      ⟨['d', '.', 'c', 'o', 'n', 'f'], by decide, by decide, by decide⟩⟩
  refine ⟨hrelative, hends, ?_⟩
  rw [(foldl_includedAt .empty ⟨0⟩ "conf//app.conf" hrelative hends).2]
  decide +kernel

end Registry

end ConfigSource
