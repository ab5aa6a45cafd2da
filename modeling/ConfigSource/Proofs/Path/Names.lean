import ConfigSource.Path.Relative
import Mathlib.Data.List.Infix

/-!
# Paths by their names

The **names** of a path are its pieces that are not empty (`ConfigSource.Path.names`). A piece is a
**plain name** if it says something in every path: it is not empty, neither `.` nor `..`, and
without a separator. Places consist of plain names, and so does what is joined to a place
(`ConfigSource.Path.isName_of_mem_names_place`, `ConfigSource.Path.isName_of_mem_names_join`).

The way from one place to another is a text, and whether it leaves its start is read off how that
text begins. The main result is that this says what it should: the way from `source` to `target`
stays below `source` exactly if the names of `source` are a proper beginning of those of `target`
(`ConfigSource.Path.isBelow_between_iff`).
-/

namespace ConfigSource

namespace Path

/-- The names of a path: its pieces that are not empty. -/
def names (s : String) : List Piece := (pieces s.toList).filter (!·.isEmpty)

/-- A piece that says something in every path. -/
def IsName (p : Piece) : Prop := p ≠ [] ∧ p ≠ here ∧ p ≠ up ∧ '/' ∉ p

/-- A piece that is one name wherever it stands, `.` and `..` included. -/
def IsSolid (p : Piece) : Prop := p ≠ [] ∧ '/' ∉ p

theorem IsName.isSolid {p : Piece} (h : IsName p) : IsSolid p := ⟨h.1, h.2.2.2⟩

/-- **A path lies inside another** if it begins with all its names and has more. -/
def IsInside (outer inner : String) : Prop :=
  names outer <+: names inner ∧ names outer ≠ names inner

instance (outer inner : String) : Decidable (IsInside outer inner) :=
  inferInstanceAs (Decidable (_ ∧ _))

/-! ### Cutting -/

/-- A separator cuts whatever stands around it. -/
theorem pieces_append_separator (before after : List Char) :
    pieces (before ++ '/' :: after) = pieces before ++ pieces after := by
  induction before with
  | nil => simp [pieces]
  | cons c rest ih =>
    rw [List.cons_append, pieces, pieces, ih]
    split
    · rfl
    · cases h : pieces rest with
      | nil => exact absurd h (pieces_ne_nil rest)
      | cons p ps => rfl

theorem separator_notMem_of_mem_pieces {cs : List Char} {p : Piece} (h : p ∈ pieces cs) :
    '/' ∉ p := by
  induction cs generalizing p with
  | nil => simp_all [pieces]
  | cons c rest ih =>
    rw [pieces] at h
    split at h
    · rcases List.mem_cons.mp h with rfl | h
      · exact List.not_mem_nil
      · exact ih h
    · next hc =>
      cases hr : pieces rest with
      | nil => exact absurd hr (pieces_ne_nil rest)
      | cons first others =>
        rw [hr] at h ih
        rcases List.mem_cons.mp h with rfl | h
        · rw [List.mem_cons, not_or]
          exact ⟨Ne.symm hc, ih List.mem_cons_self⟩
        · exact ih (List.mem_cons_of_mem _ h)

theorem ne_nil_of_mem_names {s : String} {p : Piece} (h : p ∈ names s) : p ≠ [] := by
  simpa using List.of_mem_filter h

theorem separator_notMem_of_mem_names {s : String} {p : Piece} (h : p ∈ names s) : '/' ∉ p :=
  separator_notMem_of_mem_pieces (List.mem_of_mem_filter h)

theorem pieces_of_separator_notMem {p : Piece} (h : '/' ∉ p) : pieces p = [p] := by
  induction p with
  | nil => rfl
  | cons c rest ih =>
    rw [List.mem_cons, not_or] at h
    rw [pieces, if_neg (Ne.symm h.1), ih h.2]

/-- A solid piece is cut into itself. -/
theorem filter_pieces_of_isSolid {p : Piece} (h : IsSolid p) :
    (pieces p).filter (!·.isEmpty) = [p] := by
  rw [pieces_of_separator_notMem h.2]
  simpa using h.1

/-- Separators alone have nothing between them. -/
theorem filter_pieces_replicate (n : Nat) :
    (pieces (List.replicate n '/')).filter (!·.isEmpty) = [] := by
  induction n with
  | zero => rfl
  | succ n ih => simpa [List.replicate_succ, pieces] using ih

/-- A solid piece is cut off the separators behind it. -/
theorem filter_pieces_append_replicate {p : Piece} (h : IsSolid p) (n : Nat) :
    (pieces (p ++ List.replicate n '/')).filter (!·.isEmpty) = [p] := by
  cases n with
  | zero => rw [List.replicate_zero, List.append_nil, filter_pieces_of_isSolid h]
  | succ n =>
    rw [List.replicate_succ, pieces_append_separator, List.filter_append,
      filter_pieces_of_isSolid h, filter_pieces_replicate, List.append_nil]

/-- Joined pieces are cut apart again. -/
theorem filter_pieces_joinPieces {ps : List Piece} (h : ∀ p ∈ ps, IsSolid p) :
    (pieces (joinPieces ps)).filter (!·.isEmpty) = ps := by
  induction ps with
  | nil => rfl
  | cons p ps ih =>
    have hcut := filter_pieces_of_isSolid (h p List.mem_cons_self)
    cases ps with
    | nil => exact hcut
    | cons q ps =>
      rw [joinPieces, pieces_append_separator, List.filter_append, hcut,
        ih fun q hq => h q (List.mem_cons_of_mem _ hq), List.singleton_append]

/-! ### Normal forms -/

theorem push_of_isName {p : Piece} (h : IsName p) (climbs : Bool) (stack : List Piece) :
    push climbs stack p = p :: stack := by
  unfold push
  rw [if_neg (not_or.mpr ⟨h.1, h.2.1⟩), if_neg h.2.2.1]

/-- **One piece keeps a normal form plain** where climbing is not possible. -/
theorem isName_of_mem_push {stack : List Piece} {p q : Piece} (hstack : ∀ n ∈ stack, IsName n)
    (hp : '/' ∉ p) (hq : q ∈ push false stack p) : IsName q := by
  unfold push at hq
  split at hq
  · exact hstack q hq
  · next hsay =>
    rw [not_or] at hsay
    split at hq
    · cases stack with
      | nil => exact absurd hq (by simp)
      | cons top below =>
        -- plain names hold no `..`, so there is one to take away
        have htop : top ≠ up := (hstack top List.mem_cons_self).2.2.1
        simp only [if_neg htop] at hq
        exact hstack q (List.mem_cons_of_mem _ hq)
    · next hup =>
      rcases List.mem_cons.mp hq with rfl | hq
      · exact ⟨hsay.1, hsay.2, hup, hp⟩
      · exact hstack q hq

theorem isName_of_mem_foldl_push {ps : List Piece} (hps : ∀ p ∈ ps, '/' ∉ p)
    {stack : List Piece} (hstack : ∀ n ∈ stack, IsName n) :
    ∀ n ∈ ps.foldl (push false) stack, IsName n := by
  induction ps generalizing stack with
  | nil => exact hstack
  | cons p ps ih =>
    have hp := hps p List.mem_cons_self
    exact ih (fun q hq => hps q (List.mem_cons_of_mem _ hq)) fun n => isName_of_mem_push hstack hp

theorem foldl_push_of_isName {ns : List Piece} (h : ∀ n ∈ ns, IsName n) (climbs : Bool)
    (stack : List Piece) : ns.foldl (push climbs) stack = ns.reverse ++ stack := by
  induction ns generalizing stack with
  | nil => rfl
  | cons n ns ih =>
    rw [List.foldl_cons, push_of_isName (h n List.mem_cons_self),
      ih fun m hm => h m (List.mem_cons_of_mem _ hm), List.reverse_cons, List.append_assoc,
      List.singleton_append]

/-- Empty pieces make no difference to a normal form. -/
theorem foldl_push_filter (climbs : Bool) (ps stack : List Piece) :
    (ps.filter (!·.isEmpty)).foldl (push climbs) stack = ps.foldl (push climbs) stack := by
  induction ps generalizing stack with
  | nil => rfl
  | cons p ps ih =>
    rw [List.filter_cons, List.foldl_cons]
    cases p with
    | nil => simpa [push] using ih stack
    | cons c p => simpa using ih _

theorem resolvePieces_of_isName {ns : List Piece} (h : ∀ n ∈ ns, IsName n) (climbs : Bool) :
    resolvePieces climbs ns = ns := by
  simp [resolvePieces, foldl_push_of_isName h]

theorem placeSegments_eq (s : String) : placeSegments s = resolvePieces false (names s) := by
  rw [placeSegments, resolvePieces, resolvePieces, names, foldl_push_filter]

/-- **Normal forms that cannot climb consist of plain names.** -/
theorem isName_of_mem_resolvePieces {ps : List Piece} (h : ∀ p ∈ ps, '/' ∉ p) :
    ∀ n ∈ resolvePieces false ps, IsName n := by
  intro n hn
  rw [resolvePieces, List.mem_reverse] at hn
  exact isName_of_mem_foldl_push h (fun _ h => absurd h List.not_mem_nil) n hn

theorem isName_of_mem_placeSegments {s : String} : ∀ n ∈ placeSegments s, IsName n :=
  isName_of_mem_resolvePieces fun _ => separator_notMem_of_mem_pieces

/-- A path of plain names is its own place. -/
theorem placeSegments_of_isName {s : String} (h : ∀ n ∈ names s, IsName n) :
    placeSegments s = names s := by
  rw [placeSegments_eq, resolvePieces_of_isName h]

/-! ### The names of what is spelled -/

theorem names_ofList (cs : List Char) :
    names (String.ofList cs) = (pieces cs).filter (!·.isEmpty) := by
  rw [names, String.toList_ofList]

theorem names_ofList_separator (cs : List Char) :
    names (String.ofList ('/' :: cs)) = (pieces cs).filter (!·.isEmpty) := by
  simp [names, pieces]

theorem names_spellPlace {ns : List Piece} (h : ∀ n ∈ ns, IsName n) :
    names (spellPlace ns) = ns := by
  rw [spellPlace, names_ofList_separator, filter_pieces_joinPieces fun n hn => (h n hn).isSolid]

/-- **What is spelled is read back**; nothing at all is spelled `.` where it is relative. -/
theorem names_spell {ps : List Piece} (h : ∀ p ∈ ps, IsSolid p) (hne : ps ≠ [])
    (absolute trailing : Bool) : names (spell absolute trailing ps) = ps := by
  cases ps with
  | nil => exact absurd rfl hne
  | cons p ps =>
    have hcut := filter_pieces_joinPieces h
    cases absolute <;> cases trailing <;>
      simpa [names, spell, pieces, pieces_append_separator] using hcut

theorem names_spell_absolute {ps : List Piece} (h : ∀ p ∈ ps, IsSolid p) (trailing : Bool) :
    names (spell true trailing ps) = ps := by
  cases ps with
  | nil => simp [spell, names, pieces]
  | cons p ps => exact names_spell h (List.cons_ne_nil p ps) true trailing

theorem names_append_separator (first second : String) :
    names (first ++ "/" ++ second) = names first ++ names second := by
  simp [names, pieces_append_separator, List.append_assoc]

theorem isAbsolute_append {s : String} (h : isAbsolute s = true) (rest : String) :
    isAbsolute (s ++ rest) = true := by
  simp only [isAbsolute, beq_iff_eq, String.toList_append] at h ⊢
  rw [List.head?_append, h, Option.some_or]

theorem names_normalize {s : String} (h : isAbsolute s = true) :
    names (normalize s) = placeSegments s := by
  rw [normalize, segments, h]
  exact names_spell_absolute (fun n hn => (isName_of_mem_placeSegments n hn).isSolid) _

theorem names_place (s : String) : names (place s) = placeSegments s :=
  names_spellPlace isName_of_mem_placeSegments

theorem isName_of_mem_names_place {s : String} : ∀ n ∈ names (place s), IsName n := by
  rw [names_place]
  exact isName_of_mem_placeSegments

/-- A place is seen from anywhere. -/
theorem resolve_eq_place (start path : String) : ∃ s, resolve start path = place s := by
  unfold resolve
  split
  · exact ⟨_, rfl⟩
  · exact ⟨_, rfl⟩

theorem isAbsolute_place (s : String) : isAbsolute (place s) = true := by
  simp [place, spellPlace, isAbsolute]

/-- What is joined to an absolute path is read behind its names. -/
theorem names_join {first : String} (h : isAbsolute first = true) (second : String) :
    names (join first second) = resolvePieces false (names first ++ names second) := by
  have hfirst : first.isEmpty = false := by
    rw [Bool.eq_false_iff]
    intro hempty
    rw [String.isEmpty_iff.mp hempty] at h
    exact absurd h (by decide)
  rw [join, hfirst, if_neg Bool.false_ne_true]
  split
  · next hsecond =>
    rw [String.isEmpty_iff.mp hsecond, names_normalize h, placeSegments_eq]
    exact congrArg (resolvePieces false) (List.append_nil _).symm
  · rw [names_normalize (isAbsolute_append (isAbsolute_append h _) _), placeSegments_eq,
      names_append_separator]

theorem isName_of_mem_names_join {first : String} (h : isAbsolute first = true) (second : String) :
    ∀ n ∈ names (join first second), IsName n := by
  rw [names_join h]
  refine isName_of_mem_resolvePieces fun p hp => ?_
  rcases List.mem_append.mp hp with hp | hp
  · exact separator_notMem_of_mem_names hp
  · exact separator_notMem_of_mem_names hp

/-! ### The way from one place to another -/

/-- What is left of two lists behind a common beginning. -/
theorem exists_append_apart (as bs : List Piece) :
    ∃ common, as = common ++ (apart as bs).1 ∧ bs = common ++ (apart as bs).2 := by
  fun_induction apart as bs with
  | case1 as b bs ih =>
    obtain ⟨common, has, hbs⟩ := ih
    exact ⟨b :: common, congrArg (b :: ·) has, congrArg (b :: ·) hbs⟩
  | case2 a as b bs hne => exact ⟨[], rfl, rfl⟩
  | case3 as bs h => exact ⟨[], rfl, rfl⟩

/-- Behind a beginning of a list, the rest of that list is left. -/
theorem apart_append (as rest : List Piece) : apart as (as ++ rest) = ([], rest) := by
  induction as with
  | nil => cases rest <;> rfl
  | cons a as ih => rw [List.cons_append, apart, if_pos rfl, ih]

theorem between_of_isName {source target : String} (hs : ∀ n ∈ names source, IsName n)
    (ht : ∀ n ∈ names target, IsName n) :
    between source target = String.ofList (joinPieces
      ((apart (names source) (names target)).1.map (fun _ => up)
        ++ (apart (names source) (names target)).2)) := by
  rw [between, placeSegments_of_isName hs, placeSegments_of_isName ht]

theorem isBelow_ofList_iff {cs : List Char} :
    isBelow (String.ofList cs) = true ↔
      cs ≠ [] ∧ cs ≠ up ∧ ¬up ++ ['/'] <+: cs ∧ cs.head? ≠ some '/' := by
  have hup : String.ofList cs = ".." ↔ cs = up := by
    rw [← String.toList_inj, String.toList_ofList]
    rfl
  have hclimbs : ['.', '.', '/'].isPrefixOf cs = false ↔ ¬['.', '.', '/'] <+: cs := by
    rw [Bool.eq_false_iff, ne_eq, List.isPrefixOf_iff_prefix]
  simp [isBelow, isAbsolute, hup, hclimbs, up, and_assoc]

/-- **A way that begins with `..` leaves its start**, whatever follows. -/
theorem isBelow_up (rest : List Piece) :
    isBelow (String.ofList (joinPieces (up :: rest))) = false := by
  rw [Bool.eq_false_iff, ne_eq, isBelow_ofList_iff]
  rintro ⟨-, hstays, hclimbs, -⟩
  cases rest with
  | nil => exact hstays rfl
  | cons p rest => exact hclimbs ⟨joinPieces (p :: rest), by simp [joinPieces]⟩

/-- **A way of names stays below its start** unless it is empty. -/
theorem isBelow_of_isName {ns : List Piece} (h : ∀ n ∈ ns, IsName n) :
    isBelow (String.ofList (joinPieces ns)) = true ↔ ns ≠ [] := by
  cases ns with
  | nil => decide
  | cons n ns =>
    have hn := h n List.mem_cons_self
    have hcut := filter_pieces_joinPieces fun n hn => (h n hn).isSolid
    -- a way that is `..` or goes on behind `../` would be cut into `..` and more
    have hstays : joinPieces (n :: ns) ≠ up := fun hup => by
      rw [hup] at hcut
      exact hn.2.2.1 (List.cons.inj hcut).1.symm
    have hclimbs : ¬up ++ ['/'] <+: joinPieces (n :: ns) := fun ⟨rest, hup⟩ => by
      rw [← hup, List.append_assoc, List.singleton_append, pieces_append_separator] at hcut
      exact hn.2.2.1 (List.cons.inj hcut).1.symm
    have hbegins : (joinPieces (n :: ns)).head? = n.head? := by
      cases ns with
      | nil => rfl
      | cons m ns => rw [joinPieces, List.head?_append_of_ne_nil _ hn.1]
    have hrelative : n.head? ≠ some '/' := fun hhead => hn.2.2.2 (List.mem_of_mem_head? hhead)
    rw [isBelow_ofList_iff]
    refine ⟨fun _ => List.cons_ne_nil n ns, fun _ => ⟨?_, hstays, hclimbs, ?_⟩⟩
    · rw [ne_eq, ← List.head?_eq_none_iff, hbegins, List.head?_eq_none_iff]
      exact hn.1
    · rwa [hbegins]

/-- **The way from a place leads below it exactly to what lies inside it.** -/
theorem isBelow_between_iff {source target : String} (hs : ∀ n ∈ names source, IsName n)
    (ht : ∀ n ∈ names target, IsName n) :
    isBelow (between source target) = true ↔ IsInside source target := by
  rw [between_of_isName hs ht, IsInside]
  by_cases hpre : names source <+: names target
  · obtain ⟨rest, hrest⟩ := hpre
    have hnames : ∀ n ∈ rest, IsName n := fun n hn =>
      ht n (hrest ▸ List.mem_append_right _ hn)
    rw [← hrest, apart_append, List.map_nil, List.nil_append, isBelow_of_isName hnames]
    simp
  · obtain ⟨common, hsource, htarget⟩ := exists_append_apart (names source) (names target)
    -- something is left of the source, and each piece of it is one `..` on the way
    cases hleft : (apart (names source) (names target)).1 with
    | nil =>
      rw [hleft, List.append_nil] at hsource
      rw [← hsource] at htarget
      exact absurd ⟨_, htarget.symm⟩ hpre
    | cons p left =>
      rw [List.map_cons, List.cons_append, isBelow_up]
      simp [hpre]

end Path

end ConfigSource
