import ConfigSource.Proofs.Path.NormalForm

/-!
# Walking along a path

Following the pieces of a path is a walk: an empty piece and `.` stay, a name enters, and `..`
leaves what was entered last. Where nothing is left to leave, `..` stays at the root and climbs
above the start of a relative path. All that counts of such a walk is how often it climbed and which
names it is in (`ConfigSource.Path.Whereabouts`).

The normal form of a path is where it leads (`ConfigSource.Path.resolvePieces_eq_walk`), and
different whereabouts are spelled differently (`ConfigSource.Path.spell_inj`). So two paths that
begin and end alike have the same normal form exactly if they lead to the same place
(`ConfigSource.Path.normalize_eq_iff`).
-/

namespace ConfigSource

namespace Path

/-- Where a walk stands. -/
structure Whereabouts where
  /-- How often it climbed above its start. -/
  climbed : Nat
  /-- The names that it has entered and not left, the outermost first. -/
  entered : List Piece
deriving DecidableEq

namespace Whereabouts

/-- Where a walk begins. -/
def start : Whereabouts := ⟨0, []⟩

/-- One piece further. Above the root there is nothing to climb to. -/
def step (rooted : Bool) (w : Whereabouts) (piece : Piece) : Whereabouts :=
  if piece = [] ∨ piece = here then w
  else if piece = up then
    if w.entered = [] then
      if rooted then w else { w with climbed := w.climbed + 1 }
    else { w with entered := w.entered.dropLast }
  else { w with entered := w.entered ++ [piece] }

/-- The pieces one after the other. -/
def walk (rooted : Bool) (ps : List Piece) : Whereabouts := ps.foldl (step rooted) start

/-- The pieces that lead there directly. -/
def segments (w : Whereabouts) : List Piece := List.replicate w.climbed up ++ w.entered

/-- Whereabouts that a walk can come to: names are entered, and nothing is above the root. -/
structure IsReached (rooted : Bool) (w : Whereabouts) : Prop where
  /-- What is entered is not left at once. -/
  entered : up ∉ w.entered
  /-- Nothing is above the root. -/
  climbed : rooted = true → w.climbed = 0

variable {rooted : Bool} {w : Whereabouts}

theorem reverse_segments (w : Whereabouts) :
    w.segments.reverse = w.entered.reverse ++ List.replicate w.climbed up := by
  rw [segments, List.reverse_append, List.reverse_replicate]

theorem isReached_start (rooted : Bool) : IsReached rooted start := ⟨List.not_mem_nil, fun _ => rfl⟩

/-- **One piece leads from whereabouts that can be reached to such.** -/
theorem isReached_step (h : IsReached rooted w) (p : Piece) :
    IsReached rooted (w.step rooted p) := by
  unfold step
  split
  · exact h
  · split
    · split
      · split
        · exact h
        · next hrooted => exact ⟨h.entered, fun hr => absurd hr hrooted⟩
      · exact ⟨fun hmem => h.entered (List.mem_of_mem_dropLast hmem), h.climbed⟩
    · next hup =>
      refine ⟨fun hmem => ?_, h.climbed⟩
      rcases List.mem_append.mp hmem with hmem | hmem
      · exact h.entered hmem
      · exact hup (List.mem_singleton.mp hmem).symm

/-- **One piece is taken into a normal form as it is walked along.** -/
theorem push_segments (h : IsReached rooted w) (p : Piece) :
    push (!rooted) w.segments.reverse p = (w.step rooted p).segments.reverse := by
  unfold push step
  split
  · rfl
  · split
    · obtain ⟨climbed, entered⟩ := w
      rcases List.eq_nil_or_concat entered with rfl | ⟨outer, name, rfl⟩
      · -- nothing is entered, so all pieces of the normal form lead up
        cases rooted with
        | true =>
          obtain rfl : climbed = 0 := h.climbed rfl
          rfl
        | false => cases climbed <;> simp [reverse_segments, List.replicate_succ]
      · have hname : name ≠ up := fun hup => h.entered (by simp [hup])
        simp [reverse_segments, hname]
    · simp [reverse_segments]

theorem foldl_push_segments (ps : List Piece) (h : IsReached rooted w) :
    ps.foldl (push (!rooted)) w.segments.reverse
      = (ps.foldl (step rooted) w).segments.reverse := by
  induction ps generalizing w with
  | nil => rfl
  | cons p ps ih => rw [List.foldl_cons, List.foldl_cons, push_segments h, ih (isReached_step h p)]

end Whereabouts

open Whereabouts

/-- **The normal form is where the pieces lead.** -/
theorem resolvePieces_eq_walk (rooted : Bool) (ps : List Piece) :
    resolvePieces (!rooted) ps = (walk rooted ps).segments :=
  List.reverse_eq_iff.mpr (foldl_push_segments ps (isReached_start rooted))

/-! ### Spelling -/

/-- Nothing but `.` is spelled where a relative path leads to its start. -/
theorem names_spell_nil (trailing : Bool) : names (spell false trailing []) = [here] := by
  cases trailing <;> rfl

/-- **Different normal forms are spelled differently**, if they begin and end alike. -/
theorem spell_inj {ps qs : List Piece} (hps : ∀ p ∈ ps, IsSolid p ∧ p ≠ here)
    (hqs : ∀ q ∈ qs, IsSolid q ∧ q ≠ here) (absolute trailing : Bool) :
    spell absolute trailing ps = spell absolute trailing qs ↔ ps = qs := by
  refine ⟨fun h => ?_, congrArg _⟩
  have hnames := congrArg names h
  have hread {rs : List Piece} (hrs : ∀ r ∈ rs, IsSolid r ∧ r ≠ here) (hne : rs ≠ []) :
      names (spell absolute trailing rs) = rs :=
    names_spell (fun r hr => (hrs r hr).1) hne absolute trailing
  cases absolute with
  | true =>
    rwa [names_spell_absolute fun p hp => (hps p hp).1,
      names_spell_absolute fun q hq => (hqs q hq).1] at hnames
  | false =>
    -- the start is spelled `.`, and no normal form has that piece
    have hstart {rs : List Piece} (hrs : ∀ r ∈ rs, IsSolid r ∧ r ≠ here) (hne : rs ≠ [])
        (hhere : rs = [here]) : False := (hrs here (by simp [hhere])).2 rfl
    rcases ps with _ | ⟨p, ps⟩ <;> rcases qs with _ | ⟨q, qs⟩
    · rfl
    · rw [names_spell_nil, hread hqs (List.cons_ne_nil q qs)] at hnames
      exact (hstart hqs (List.cons_ne_nil q qs) hnames.symm).elim
    · rw [names_spell_nil, hread hps (List.cons_ne_nil p ps)] at hnames
      exact (hstart hps (List.cons_ne_nil p ps) hnames).elim
    · rwa [hread hps (List.cons_ne_nil p ps), hread hqs (List.cons_ne_nil q qs)] at hnames

/-- The pieces of a normal form say something. -/
theorem telling_of_mem_segments {s : String} : ∀ p ∈ segments s, IsSolid p ∧ p ≠ here := by
  rw [segments_eq]
  intro p hp
  have hsettled := @isSettled_resolvePieces (!isAbsolute s) (names s)
    fun q => separator_notMem_of_mem_names
  exact hsettled.telling p (List.mem_reverse.mpr hp)

/-- **Paths that begin and end alike have the same normal form exactly if they lead to the same
place.** -/
theorem normalize_eq_iff {s t : String} (hbegin : isAbsolute s = isAbsolute t)
    (hend : endsWithSeparator s = endsWithSeparator t) :
    normalize s = normalize t ↔ segments s = segments t := by
  rw [normalize, normalize, hbegin, hend]
  exact spell_inj telling_of_mem_segments telling_of_mem_segments _ _

end Path

end ConfigSource
