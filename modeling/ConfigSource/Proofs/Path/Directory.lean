import ConfigSource.Proofs.Path.NormalForm

/-!
# Directories and joined paths

The directory of a path is the text in front of its last name, as it is spelled there. Whatever that
spelling is, it stands for the names of the path without the last
(`ConfigSource.Path.foldl_push_names_dirname`), and it begins at the root exactly if the path does
(`ConfigSource.Path.isAbsolute_dirname`).

Several paths are joined by putting separators between them and taking the normal form
(`ConfigSource.Path.joinAll`). Joining can be done step by step: if a path ends in a plain name
(`ConfigSource.Path.EndsInName`), the directory of what it was joined to can be joined further, and
that is joining the two directories at once (`ConfigSource.Path.joinAll_dirname_join`). A path that
ends in `.` or `..` would be left one directory off.
-/

namespace ConfigSource

namespace Path

/-! ### Several paths at once -/

/-- Paths with separators between them. -/
def joined (paths : List String) : String := String.ofList (joinPieces (paths.map String.toList))

/-- Several paths, one after the other, in normal form; empty ones are left out. -/
def joinAll (paths : List String) : String := normalize (joined (paths.filter (!·.isEmpty)))

/-- **The last piece of a path that says something is a plain name.** -/
def EndsInName (s : String) : Prop := ∃ p, (names s).getLast? = some p ∧ p ≠ here ∧ p ≠ up

/-! ### Directories -/

/-- Without the separators behind it and the last piece, what is left of a path ends in a
separator, if anything is. -/
theorem dropWhile_name {p : Piece} (hp : IsSolid p) (rest : List Char) (n : Nat) :
    ((rest ++ (p ++ List.replicate n '/')).reverse.dropWhile (· == '/')).dropWhile (· != '/')
      = rest.reverse.dropWhile (· != '/') := by
  have hseparators : ∀ c ∈ List.replicate n '/', (c == '/') = true := fun c hc => by
    rw [List.eq_of_mem_replicate hc, beq_self_eq_true]
  have hname : ∀ c ∈ p.reverse, (c != '/') = true := fun c hc =>
    bne_iff_ne.mpr fun h => hp.2 (h ▸ List.mem_reverse.mp hc)
  -- the last character of the piece ends the separators
  have hstops : (p.reverse ++ rest.reverse).dropWhile (· == '/') = p.reverse ++ rest.reverse := by
    obtain ⟨last, front, hlast⟩ := List.exists_cons_of_ne_nil (List.reverse_ne_nil_iff.mpr hp.1)
    have hne := hname last (hlast ▸ List.mem_cons_self)
    rw [hlast, List.cons_append, List.dropWhile_cons_of_neg (by simpa using hne)]
  rw [List.reverse_append, List.reverse_append, List.reverse_replicate, List.append_assoc,
    List.dropWhile_append_of_pos hseparators, hstops, List.dropWhile_append_of_pos hname]

theorem dirname_ofList_cons (first : Char) (rest : List Char) :
    dirname (String.ofList (first :: rest))
      = match (rest.reverse.dropWhile (· == '/')).dropWhile (· != '/') with
        | [] => if first = '/' then "/" else "."
        | _ :: before =>
          if first = '/' ∧ before = [] then "//"
          else String.ofList (first :: before.reverse) := by
  unfold dirname
  generalize hchars : (String.ofList (first :: rest)).toList = chars
  obtain rfl : first :: rest = chars := String.toList_ofList.symm.trans hchars
  rfl

/-- A path of one name lies in the directory that it is seen from. -/
theorem dirname_of_isSolid {p : Piece} (hp : IsSolid p) (n : Nat) :
    dirname (String.ofList (p ++ List.replicate n '/')) = "." := by
  obtain ⟨first, rest, rfl⟩ := List.exists_cons_of_ne_nil hp.1
  have hfirst : first ≠ '/' := fun h => hp.2 (h ▸ List.mem_cons_self)
  have hdrop : (((rest ++ List.replicate n '/').reverse.dropWhile (· == '/')).dropWhile
      (· != '/')) = [] := by
    rcases rest with _ | ⟨c, rest⟩
    · simp
    · have hrest : IsSolid (c :: rest) :=
        ⟨List.cons_ne_nil c rest, fun h => hp.2 (List.mem_cons_of_mem _ h)⟩
      exact dropWhile_name hrest [] n
  rw [List.cons_append, dirname_ofList_cons, hdrop]
  exact if_neg hfirst

/-- **What stands in front of the last name is the directory**; the root is spelled in two ways. -/
theorem dirname_of_separator {p : Piece} (hp : IsSolid p) (before : List Char) (n : Nat) :
    dirname (String.ofList (before ++ '/' :: (p ++ List.replicate n '/')))
      = if before = [] then "/" else if before = ['/'] then "//" else String.ofList before := by
  cases before with
  | nil =>
    rw [List.nil_append, dirname_ofList_cons, ← List.nil_append (p ++ _), dropWhile_name hp]
    rfl
  | cons first before =>
    have hsplit : (first :: before) ++ '/' :: (p ++ List.replicate n '/')
        = first :: ((before ++ ['/']) ++ (p ++ List.replicate n '/')) := by simp
    rw [hsplit, dirname_ofList_cons, dropWhile_name hp, List.reverse_append]
    simp

/-- A path with a name consists of separators after its last one, that name, and what is in front
of it. -/
theorem exists_cut (cs : List Char) :
    (∀ c ∈ cs, c = '/') ∨ ∃ p n, IsSolid p ∧ (cs = p ++ List.replicate n '/' ∨
      ∃ before, cs = before ++ '/' :: (p ++ List.replicate n '/')) := by
  induction cs with
  | nil => exact Or.inl fun c hc => absurd hc List.not_mem_nil
  | cons c rest ih =>
    by_cases hc : c = '/'
    · subst hc
      rcases ih with hall | ⟨p, n, hp, rfl | ⟨before, rfl⟩⟩
      · exact Or.inl (List.forall_mem_cons.mpr ⟨rfl, hall⟩)
      · exact Or.inr ⟨p, n, hp, Or.inr ⟨[], rfl⟩⟩
      · exact Or.inr ⟨p, n, hp, Or.inr ⟨'/' :: before, rfl⟩⟩
    · rcases ih with hall | ⟨p, n, hp, rfl | ⟨before, rfl⟩⟩
      · refine Or.inr ⟨[c], rest.length, ⟨List.cons_ne_nil c [], by simpa using Ne.symm hc⟩,
          Or.inl ?_⟩
        rw [← List.eq_replicate_of_mem hall, List.singleton_append]
      · refine Or.inr ⟨c :: p, n, ⟨List.cons_ne_nil c p, ?_⟩, Or.inl rfl⟩
        rw [List.mem_cons, not_or]
        exact ⟨Ne.symm hc, hp.2⟩
      · exact Or.inr ⟨p, n, hp, Or.inr ⟨c :: before, rfl⟩⟩

/-- **A directory stands for the names of the path without the last.** -/
theorem foldl_push_names_dirname {s : String} {p : Piece} (h : (names s).getLast? = some p)
    (climbs : Bool) (stack : List Piece) :
    (names (dirname s)).foldl (push climbs) stack
      = (names s).dropLast.foldl (push climbs) stack := by
  obtain ⟨cs, rfl⟩ : ∃ cs, s = String.ofList cs := ⟨s.toList, String.ofList_toList.symm⟩
  rcases exists_cut cs with hall | ⟨q, n, hq, rfl | ⟨before, rfl⟩⟩
  · rw [List.eq_replicate_of_mem hall, names_ofList, filter_pieces_replicate] at h
    cases h
  · rw [dirname_of_isSolid hq, names_ofList (q ++ _), filter_pieces_append_replicate hq]
    simp [names, pieces, push, here]
  · rw [dirname_of_separator hq, names_ofList (_ ++ _), pieces_append_separator,
      List.filter_append, filter_pieces_append_replicate hq, List.dropLast_concat]
    split
    · next hnil =>
      subst hnil
      rfl
    · split
      · next hroot =>
        subst hroot
        rfl
      · rw [names_ofList]

/-- So it does in a normal form, with pieces in front of it and behind it. -/
theorem resolvePieces_names_dirname {s : String} {p : Piece} (h : (names s).getLast? = some p)
    (climbs : Bool) (before behind : List Piece) :
    resolvePieces climbs (before ++ (names (dirname s) ++ behind))
      = resolvePieces climbs (before ++ ((names s).dropLast ++ behind)) := by
  simp only [resolvePieces, List.foldl_append, foldl_push_names_dirname h]

/-- A directory is spelled by something. -/
theorem dirname_ne_empty (s : String) : dirname s ≠ "" := by
  unfold dirname
  split
  · decide
  · split
    · split <;> decide
    · split
      · decide
      · simp

theorem isAbsolute_dirname (s : String) : isAbsolute (dirname s) = isAbsolute s := by
  unfold dirname
  split
  · next h => simp [isAbsolute, h]
  · next first rest h =>
    have hs : isAbsolute s = (first == '/') := by simp [isAbsolute, h]
    rw [hs]
    split
    · split
      · next hfirst => simp [isAbsolute, hfirst]
      · next hfirst => simp [isAbsolute, hfirst]
    · split
      · next hfirst => simp [isAbsolute, hfirst]
      · simp [isAbsolute]

/-! ### Joined texts -/

theorem toList_ne_nil {s : String} (h : s ≠ "") : s.toList ≠ [] := fun hnil =>
  h (String.toList_eq_nil_iff.mp hnil)

/-- Joined paths have the names of all of them. -/
theorem names_joined (paths : List String) : names (joined paths) = paths.flatMap names := by
  induction paths with
  | nil => rfl
  | cons path rest ih =>
    cases rest with
    | nil => simp [joined, joinPieces]
    | cons next rest =>
      rw [List.flatMap_cons, ← ih, joined, List.map_cons, List.map_cons, joinPieces, names_ofList,
        pieces_append_separator, List.filter_append, joined, names_ofList, List.map_cons]
      rfl

/-- Joined paths begin as the first of them does. -/
theorem isAbsolute_joined {first : String} (h : first ≠ "") (rest : List String) :
    isAbsolute (joined (first :: rest)) = isAbsolute first := by
  obtain ⟨c, cs, hcs⟩ := List.exists_cons_of_ne_nil (toList_ne_nil h)
  cases rest <;> simp [isAbsolute, joined, joinPieces, hcs]

/-- Joined paths end as the last of them does. -/
theorem endsWithSeparator_joined {last : String} (h : last ≠ "") (front : List String) :
    endsWithSeparator (joined (front ++ [last])) = endsWithSeparator last := by
  have hlast : ∃ before, joinPieces ((front ++ [last]).map String.toList)
      = before ++ last.toList := by
    induction front with
    | nil => exact ⟨[], rfl⟩
    | cons path rest ih =>
      obtain ⟨before, hbefore⟩ := ih
      refine ⟨path.toList ++ '/' :: before, ?_⟩
      cases rest <;> simp_all [joinPieces]
  obtain ⟨before, hbefore⟩ := hlast
  rw [endsWithSeparator, endsWithSeparator, joined, String.toList_ofList, hbefore,
    List.getLast?_append_of_ne_nil _ (toList_ne_nil h)]

theorem join_eq_normalize {first second : String} (hfirst : first ≠ "") (hsecond : second ≠ "") :
    join first second = normalize (joined [first, second]) := by
  have htext : first ++ "/" ++ second = joined [first, second] := by
    rw [← String.toList_inj]
    simp [joined, joinPieces]
  rw [join, if_neg (by simpa using hfirst), if_neg (by simpa using hsecond), htext]

theorem isAbsolute_join {first second : String} (hfirst : first ≠ "") (hsecond : second ≠ "") :
    isAbsolute (join first second) = isAbsolute first := by
  rw [join_eq_normalize hfirst hsecond, normalize, isAbsolute_spell isSolid_of_mem_segments,
    isAbsolute_joined hfirst]

theorem joinAll_eq_normalize {paths : List String} (h : ∀ path ∈ paths, path ≠ "") :
    joinAll paths = normalize (joined paths) := by
  rw [joinAll, List.filter_eq_self.mpr fun path hpath => by simpa using h path hpath]

/-! ### One step -/

section Step

variable {first second : String}

/-- **What is joined ends in the last name of the second path**, if that is a plain one. -/
theorem names_join_of_endsInName (hfirst : first ≠ "") {p : Piece}
    (hlast : (names second).getLast? = some p) (hhere : p ≠ here) (hup : p ≠ up) :
    names (join first second)
      = resolvePieces (!isAbsolute first) (names first ++ (names second).dropLast) ++ [p] := by
  have hsecond : second ≠ "" := by
    rintro rfl
    cases hlast
  have hp : IsName p :=
    have hmem := List.mem_of_getLast? hlast
    ⟨ne_nil_of_mem_names hmem, hhere, hup, separator_notMem_of_mem_names hmem⟩
  have hsplit : names second = (names second).dropLast ++ [p] :=
    (List.dropLast_append_getLast? p hlast).symm
  have hsegments : segments (joined [first, second])
      = resolvePieces (!isAbsolute first) (names first ++ (names second).dropLast) ++ [p] := by
    rw [segments_eq, isAbsolute_joined hfirst, names_joined, ← resolvePieces_append_name hp]
    simp [← hsplit]
  rw [join_eq_normalize hfirst hsecond, normalize, names_spell isSolid_of_mem_segments, hsegments]
  rw [hsegments]
  exact List.append_ne_nil_of_right_ne_nil _ (List.cons_ne_nil p [])

/-- **The directory of a joined path stands for the directories that it was joined from.** -/
theorem resolvePieces_names_dirname_join (hfirst : first ≠ "") (hsecond : EndsInName second)
    (more : List Piece) :
    resolvePieces (!isAbsolute first) (names (dirname (join first second)) ++ more)
      = resolvePieces (!isAbsolute first) (names first ++ (names (dirname second) ++ more)) := by
  obtain ⟨p, hlast, hhere, hup⟩ := hsecond
  have hjoin := names_join_of_endsInName hfirst hlast hhere hup
  have hlastJoin : (names (join first second)).getLast? = some p := by
    rw [hjoin, List.getLast?_concat]
  have hnames : ∀ q ∈ names first ++ (names second).dropLast, '/' ∉ q := fun q hq => by
    rcases List.mem_append.mp hq with hq | hq
    · exact separator_notMem_of_mem_names hq
    · exact separator_notMem_of_mem_names (List.mem_of_mem_dropLast hq)
  -- both directories lose the same last name, and what is left was normalized early or not
  calc resolvePieces (!isAbsolute first) (names (dirname (join first second)) ++ more)
      = resolvePieces (!isAbsolute first) (resolvePieces (!isAbsolute first)
          (names first ++ (names second).dropLast) ++ more) := by
        have hdir := resolvePieces_names_dirname hlastJoin (!isAbsolute first) [] more
        rwa [List.nil_append, List.nil_append, hjoin, List.dropLast_concat] at hdir
    _ = resolvePieces (!isAbsolute first) (names first ++ (names second).dropLast ++ more) :=
        resolvePieces_resolvePieces_append hnames more
    _ = resolvePieces (!isAbsolute first) (names first ++ (names (dirname second) ++ more)) := by
        rw [List.append_assoc, resolvePieces_names_dirname hlast]

/-- **A directory can be joined further as the directories that it was joined from.** -/
theorem joinAll_dirname_join (hfirst : first ≠ "") (hsecond : EndsInName second)
    {rest : List String} (hrest : ∀ path ∈ rest, path ≠ "") {last : String} (hlast : last ≠ "") :
    joinAll (dirname (join first second) :: (rest ++ [last]))
      = joinAll (first :: dirname second :: (rest ++ [last])) := by
  have hjoin : isAbsolute (dirname (join first second)) = isAbsolute first := by
    obtain ⟨p, hp, -⟩ := hsecond
    have hne : second ≠ "" := by
      rintro rfl
      cases hp
    rw [isAbsolute_dirname, isAbsolute_join hfirst hne]
  have hmore : ∀ path ∈ rest ++ [last], path ≠ "" := fun path hpath => by
    rcases List.mem_append.mp hpath with hpath | hpath
    · exact hrest path hpath
    · rwa [List.mem_singleton.mp hpath]
  rw [joinAll_eq_normalize (List.forall_mem_cons.mpr ⟨dirname_ne_empty _, hmore⟩),
    joinAll_eq_normalize (List.forall_mem_cons.mpr ⟨hfirst,
      List.forall_mem_cons.mpr ⟨dirname_ne_empty _, hmore⟩⟩)]
  refine normalize_congr ?_ ?_ ?_
  · rw [isAbsolute_joined (dirname_ne_empty _), isAbsolute_joined hfirst, hjoin]
  · rw [← List.cons_append, ← List.cons_append, ← List.cons_append,
      endsWithSeparator_joined hlast, endsWithSeparator_joined hlast]
  · rw [isAbsolute_joined hfirst, names_joined, names_joined]
    simp only [List.flatMap_cons]
    exact resolvePieces_names_dirname_join hfirst hsecond _

end Step

end Path

end ConfigSource
