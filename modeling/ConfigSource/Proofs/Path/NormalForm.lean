import ConfigSource.Proofs.Path.Names

/-!
# Normal forms of pieces

Bringing pieces into normal form is a fold, and its state is the normal form of what was read so
far. So it makes no difference **when** a path is normalized: the normal form of a beginning can
stand in its place (`ConfigSource.Path.resolvePieces_resolvePieces_append`). This holds at an
absolute start, where `..` is swallowed, as well as at a relative one, where it climbs.

The reason is that a state of the fold is **settled** (`ConfigSource.Path.IsSettled`): its pieces,
read once more, lead to it again. A plain name that comes last stays last
(`ConfigSource.Path.resolvePieces_append_name`).

Two texts have the same normal form if they begin and end alike and their names resolve to the same
pieces (`ConfigSource.Path.normalize_congr`).
-/

namespace ConfigSource

namespace Path

/-! ### Settled states -/

/-- A state of the fold that brings pieces into normal form: its pieces lead to it again. -/
structure IsSettled (climbs : Bool) (stack : List Piece) : Prop where
  /-- Every piece says something. -/
  telling : ∀ p ∈ stack, IsSolid p ∧ p ≠ here
  /-- The pieces lead to the state. -/
  again : stack.reverse.foldl (push climbs) [] = stack

theorem isSettled_nil (climbs : Bool) : IsSettled climbs [] :=
  ⟨fun _ h => absurd h List.not_mem_nil, rfl⟩

/-- A piece that says something and does not lead up is put on the state. -/
theorem push_of_not_up {p : Piece} (hp : IsSolid p ∧ p ≠ here) (hup : p ≠ up) (climbs : Bool)
    (stack : List Piece) : push climbs stack p = p :: stack :=
  push_of_isName ⟨hp.1.1, hp.2, hup, hp.1.2⟩ climbs stack

/-- A settled state has settled states below its plain names. -/
theorem IsSettled.below {climbs : Bool} {top : Piece} {below : List Piece}
    (h : IsSettled climbs (top :: below)) (htop : top ≠ up) : IsSettled climbs below := by
  refine ⟨fun p hp => h.telling p (List.mem_cons_of_mem _ hp), ?_⟩
  have hagain := h.again
  rw [List.reverse_cons, List.foldl_append, List.foldl_cons, List.foldl_nil,
    push_of_not_up (h.telling top List.mem_cons_self) htop] at hagain
  exact (List.cons.inj hagain).2

/-- A settled state with one more piece on it is settled if that is where the piece is put. -/
theorem IsSettled.cons {climbs : Bool} {stack : List Piece} (h : IsSettled climbs stack)
    {p : Piece} (hp : IsSolid p ∧ p ≠ here) (hpush : push climbs stack p = p :: stack) :
    IsSettled climbs (p :: stack) where
  telling := List.forall_mem_cons.mpr ⟨hp, h.telling⟩
  again := by
    rw [List.reverse_cons, List.foldl_append, h.again, List.foldl_cons, List.foldl_nil, hpush]

/-- **One piece leads from a settled state to a settled state.** -/
theorem isSettled_push {climbs : Bool} {stack : List Piece} (h : IsSettled climbs stack)
    {p : Piece} (hp : '/' ∉ p) : IsSettled climbs (push climbs stack p) := by
  by_cases hsay : p = [] ∨ p = here
  · unfold push
    rw [if_pos hsay]
    exact h
  · have htells : IsSolid p ∧ p ≠ here := ⟨⟨fun hnil => hsay (Or.inl hnil), hp⟩,
      fun hhere => hsay (Or.inr hhere)⟩
    by_cases hup : p = up
    · subst hup
      unfold push
      rw [if_neg hsay, if_pos rfl]
      cases stack with
      | nil =>
        cases climbs with
        | true => exact (isSettled_nil true).cons htells rfl
        | false => exact isSettled_nil false
      | cons top below =>
        by_cases htop : top = up
        · subst htop
          exact h.cons htells rfl
        · simpa only [if_neg htop] using h.below htop
    · rw [push_of_not_up htells hup]
      exact h.cons htells (push_of_not_up htells hup climbs stack)

theorem isSettled_foldl {climbs : Bool} {ps : List Piece} (hps : ∀ p ∈ ps, '/' ∉ p)
    {stack : List Piece} (h : IsSettled climbs stack) :
    IsSettled climbs (ps.foldl (push climbs) stack) := by
  induction ps generalizing stack with
  | nil => exact h
  | cons p ps ih =>
    exact ih (fun q hq => hps q (List.mem_cons_of_mem _ hq))
      (isSettled_push h (hps p List.mem_cons_self))

/-! ### Normal forms -/

variable {climbs : Bool} {ps : List Piece}

/-- The pieces of a normal form are settled. -/
theorem isSettled_resolvePieces (hps : ∀ p ∈ ps, '/' ∉ p) :
    IsSettled climbs (resolvePieces climbs ps).reverse := by
  rw [resolvePieces, List.reverse_reverse]
  exact isSettled_foldl hps (isSettled_nil climbs)

theorem isSolid_of_mem_resolvePieces (hps : ∀ p ∈ ps, '/' ∉ p) :
    ∀ p ∈ resolvePieces climbs ps, IsSolid p := fun p hp =>
  ((isSettled_resolvePieces hps).telling p (List.mem_reverse.mpr hp)).1

/-- Reading a normal form leads to the state that it was taken from. -/
theorem foldl_push_resolvePieces (hps : ∀ p ∈ ps, '/' ∉ p) :
    (resolvePieces climbs ps).foldl (push climbs) [] = ps.foldl (push climbs) [] := by
  have hagain := (@isSettled_resolvePieces climbs ps hps).again
  rwa [List.reverse_reverse, resolvePieces, List.reverse_reverse] at hagain

/-- **Normalizing early or late is the same**: a beginning can be replaced by its normal form. -/
theorem resolvePieces_resolvePieces_append (hps : ∀ p ∈ ps, '/' ∉ p) (qs : List Piece) :
    resolvePieces climbs (resolvePieces climbs ps ++ qs) = resolvePieces climbs (ps ++ qs) := by
  rw [resolvePieces, List.foldl_append, foldl_push_resolvePieces hps, ← List.foldl_append,
    ← resolvePieces]

/-- **A plain name that comes last stays last.** -/
theorem resolvePieces_append_name {p : Piece} (h : IsName p) (ps : List Piece) :
    resolvePieces climbs (ps ++ [p]) = resolvePieces climbs ps ++ [p] := by
  rw [resolvePieces, List.foldl_append, List.foldl_cons, List.foldl_nil, push_of_isName h,
    List.reverse_cons, ← resolvePieces]

/-! ### The text of a normal form -/

theorem segments_eq (s : String) : segments s = resolvePieces (!isAbsolute s) (names s) := by
  rw [segments, resolvePieces, resolvePieces, names, foldl_push_filter]

theorem isSolid_of_mem_segments {s : String} : ∀ p ∈ segments s, IsSolid p := by
  rw [segments_eq]
  exact isSolid_of_mem_resolvePieces fun p => separator_notMem_of_mem_names

/-- **A normal form depends on the names**, and on whether the path begins and ends with a
separator. -/
theorem normalize_congr {s t : String} (hbegin : isAbsolute s = isAbsolute t)
    (hend : endsWithSeparator s = endsWithSeparator t)
    (hnames : resolvePieces (!isAbsolute t) (names s) = resolvePieces (!isAbsolute t) (names t)) :
    normalize s = normalize t := by
  rw [normalize, normalize, segments_eq, segments_eq, hbegin, hend, hnames]

/-- A normal form begins at the root exactly if it is spelled so. -/
theorem isAbsolute_spell {ss : List Piece} (h : ∀ s ∈ ss, IsSolid s) (absolute trailing : Bool) :
    isAbsolute (spell absolute trailing ss) = absolute := by
  cases absolute with
  | true => cases ss <;> simp [isAbsolute, spell]
  | false =>
    cases ss with
    | nil => cases trailing <;> rfl
    | cons s ss =>
      have hs := h s List.mem_cons_self
      obtain ⟨c, cs, rfl⟩ := List.exists_cons_of_ne_nil hs.1
      have hc : c ≠ '/' := fun hc => hs.2 (hc ▸ List.mem_cons_self)
      cases ss <;> simp [isAbsolute, spell, joinPieces, hc]

end Path

end ConfigSource
