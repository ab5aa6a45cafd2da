import ConfigSource.Proofs.Include.Nesting
import ConfigSource.Proofs.Path.Whereabouts

/-!
# Names that are spelled differently

A source can name what it includes in many ways: with `.` and doubled separators, through a
directory and back again. What is looked up is the same for all of them that lead to the same
destination, and for no others (`ConfigSource.Registry.includedAt_eq_iff`). The destination is said
without normal forms: it is where the walk along the directory of the source and then along the name
ends (`ConfigSource.Path.destination`).

So documents in memory, which know their names in one spelling only, answer to all of them
(`ConfigSource.Leaf.answer_documents_of_not_held`).
-/

namespace ConfigSource

/-- Where a name leads that a source at this location mentions: along the directory of the source,
and from there along the name. -/
def Path.destination (location name : String) : List Path.Piece :=
  (Path.Whereabouts.walk (Path.isAbsolute location)
    (Path.pieces (Path.dirname location).toList ++ Path.pieces name.toList)).segments

/-- A name that can be told apart by where it leads: it says something, and not from the root on. -/
structure Path.IsRelative (name : String) : Prop where
  /-- It says something. -/
  ne_empty : name ≠ ""
  /-- It does not begin at the root. -/
  isAbsolute : Path.isAbsolute name = false

namespace Path

theorem pieces_joined_pair (first second : String) :
    pieces (joined [first, second]).toList = pieces first.toList ++ pieces second.toList := by
  simp [joined, joinPieces, pieces_append_separator]

/-- What is joined leads where its two parts lead, one after the other. -/
theorem segments_joined_dirname (location name : String) :
    segments (joined [dirname location, name]) = destination location name := by
  rw [segments, isAbsolute_joined (dirname_ne_empty location), isAbsolute_dirname,
    pieces_joined_pair, resolvePieces_eq_walk, destination]

end Path

namespace Registry

variable {r : Registry} {o : OptionsId}

/-- **Two names are the same place exactly if they lead to the same destination.** -/
theorem includedAt_eq_iff (location : String) {name other : String} (hname : Path.IsRelative name)
    (hother : Path.IsRelative other)
    (hends : Path.endsWithSeparator name = Path.endsWithSeparator other) :
    r.includedAt o (some location) name = r.includedAt o (some location) other ↔
      Path.destination location name = Path.destination location other := by
  have hdirname := Path.dirname_ne_empty location
  have hbegin : Path.isAbsolute (Path.joined [Path.dirname location, name])
      = Path.isAbsolute (Path.joined [Path.dirname location, other]) := by
    rw [Path.isAbsolute_joined hdirname, Path.isAbsolute_joined hdirname]
  have hend : Path.endsWithSeparator (Path.joined [Path.dirname location, name])
      = Path.endsWithSeparator (Path.joined [Path.dirname location, other]) :=
    (Path.endsWithSeparator_joined hname.ne_empty [Path.dirname location]).trans
      (hends.trans (Path.endsWithSeparator_joined hother.ne_empty [Path.dirname location]).symm)
  rw [includedAt_some hname.isAbsolute, includedAt_some hother.isAbsolute, Option.some_inj,
    Path.join_eq_normalize hdirname hname.ne_empty,
    Path.join_eq_normalize hdirname hother.ne_empty, Path.normalize_eq_iff hbegin hend,
    Path.segments_joined_dirname, Path.segments_joined_dirname]

end Registry

/-- **Documents see no more of a name than how it is looked up**: a name that they do not hold
themselves is looked up as seen from the including source. -/
theorem Leaf.answer_documents_of_not_held (s : Surroundings)
    (handOn : String → Asking (Option Reply)) (title : String) {held : Table Value} {name : String}
    (h : held.get? name = none) :
    (Leaf.documents title held).answer s handOn name
      = pure ((s.relative name).bind fun place =>
          ((held.get? place).filter Value.isTruthy).map fun v => ⟨v, title⟩) := by
  simp only [Leaf.answer, answerFromDocuments, h, Option.none_or]
  cases s.relative name with
  | none => rfl
  | some place =>
    simp only [Option.bind_some]
    cases held.get? place with
    | none => rfl
    | some v => by_cases hv : v.isTruthy <;> simp [hv, Option.filter]

/-- What a leaf can ask, if it is asked in a source at this place. -/
def Surroundings.seenFrom (s : Surroundings) (r : Registry) (o : OptionsId)
    (place : Option String) : Surroundings :=
  { s with relative := r.includedAt o place }

namespace Registry

/-- **What a name leads to does not depend on how it is spelled.** From a source at a location,
relative names lead to a place. Of two names that both end with a separator or both do not, the
places are equal exactly if the destinations are: the names that one comes to along the directory of
the source and then along the name. Documents in memory that hold neither of two such names answer
both in the same way, with the same document, in the same name, or with none. From a source without
a location they answer neither. -/
theorem includedAt_spelled (r : Registry) (o : OptionsId) (location : String) {name other : String}
    (hname : Path.IsRelative name) (hother : Path.IsRelative other)
    (hends : Path.endsWithSeparator name = Path.endsWithSeparator other) :
    (r.includedAt o (some location) name).isSome ∧
    (r.includedAt o (some location) other).isSome ∧
    (r.includedAt o (some location) name = r.includedAt o (some location) other ↔
      Path.destination location name = Path.destination location other) ∧
    ∀ (s : Surroundings) (handOn : String → Asking (Option Reply)) (title : String)
      (held : Table Value), held.get? name = none → held.get? other = none →
      let documents := Leaf.documents title held
      (Path.destination location name = Path.destination location other →
        documents.answer (s.seenFrom r o (some location)) handOn name
          = documents.answer (s.seenFrom r o (some location)) handOn other) ∧
      documents.answer (s.seenFrom r o none) handOn name = pure none ∧
      documents.answer (s.seenFrom r o none) handOn other = pure none := by
  have hiff := includedAt_eq_iff (r := r) (o := o) location hname hother hends
  refine ⟨?_, ?_, hiff, fun s handOn title held hheld hheldOther => ⟨fun hsame => ?_, ?_, ?_⟩⟩
  · rw [includedAt_some hname.isAbsolute, Option.isSome_some]
  · rw [includedAt_some hother.isAbsolute, Option.isSome_some]
  · rw [Leaf.answer_documents_of_not_held _ _ _ hheld,
      Leaf.answer_documents_of_not_held _ _ _ hheldOther]
    exact congrArg (fun place => pure (Option.bind place _)) (hiff.mpr hsame)
  · rw [Leaf.answer_documents_of_not_held _ _ _ hheld]
    rfl
  · rw [Leaf.answer_documents_of_not_held _ _ _ hheldOther]
    rfl

/-- From `conf/app.conf`, a name that leaves the directory of the source. The document that it leads
to is found under both spellings, as `shared/db.conf`. -/
theorem includedAt_spelled_leaving :
    let held : Table Value := [("shared/db.conf", .text "db")]
    let s : Surroundings := ⟨fun _ => none, none, .ok .undefined, fun _ => .ok none⟩
    let answer := (Leaf.documents "object" held).answer
      (s.seenFrom .empty ⟨0⟩ (some "conf/app.conf")) fun _ => pure none
    Path.IsRelative "../shared//db.conf" ∧ Path.IsRelative "./../lib/../shared/db.conf" ∧
      Path.destination "conf/app.conf" "../shared//db.conf"
        = Path.destination "conf/app.conf" "./../lib/../shared/db.conf" ∧
      answer "../shared//db.conf" = answer "./../lib/../shared/db.conf" ∧
      answer "../shared//db.conf" = pure (some ⟨.text "db", "object"⟩) := by
  intro held s answer
  have hname : Path.IsRelative "../shared//db.conf" := ⟨by decide, by decide⟩
  have hother : Path.IsRelative "./../lib/../shared/db.conf" := ⟨by decide, by decide⟩
  have hsame : Path.destination "conf/app.conf" "../shared//db.conf"
      = Path.destination "conf/app.conf" "./../lib/../shared/db.conf" := by
    decide +kernel
  have hspelled := includedAt_spelled .empty ⟨0⟩ "conf/app.conf" hname hother (by decide)
  refine ⟨hname, hother, hsame, ?_, ?_⟩
  · exact (hspelled.2.2.2 s (fun _ => pure none) "object" held (by decide) (by decide)).1 hsame
  · have hplace : Registry.empty.includedAt ⟨0⟩ (some "conf/app.conf") "../shared//db.conf"
        = some "shared/db.conf" := by
      decide +kernel
    exact (Leaf.answer_documents_of_not_held _ _ "object" (by decide)).trans
      (congrArg (fun place => pure (Option.bind place _)) hplace)

end Registry

end ConfigSource
