import ConfigSource.FileTree.Walk
import ConfigSource.Proofs.Path.Names

/-!
# Where a path leads

A walk carries the directories that it came through, and it gives up after so many links. What a
path means is told here without either: a path **leads** from a place to a place if its pieces do,
one after the other, and a link leads where its target leads, seen from the directory that the link
stands in.

* `ConfigSource.FileTree.Leads`: where pieces lead once links are followed. It is one place at most
  (`ConfigSource.FileTree.Leads.unique`), and pieces can be followed part by part
  (`ConfigSource.FileTree.leads_append`).
* A walk that ends at a file or a directory ends where its path leads
  (`ConfigSource.FileTree.agrees_walk`, `ConfigSource.FileTree.denotes_of_follow`). What carries
  this is that a trail is true to the tree: `ConfigSource.Trail.StandsIn`.
-/

open ConfigSource.Path

namespace ConfigSource

/-! ### What stands below a place -/

namespace Entry

theorem at?_append (above below : Place) (e : Entry) :
    e.at? (above ++ below) = (e.at? above).bind (at? below) := by
  induction above generalizing e with
  | nil => rfl
  | cons name above ih =>
    cases e with
    | directory held =>
      simp only [List.cons_append, at?]
      cases Table.get? held name with
      | none => rfl
      | some inner => exact ih inner
    | file | link => rfl

end Entry

namespace FileTree

variable {t : FileTree}

theorem at?_append (t : FileTree) (above below : Place) :
    t.at? (above ++ below) = (t.at? above).bind (Entry.at? below) :=
  Entry.at?_append above below _

/-- A directory stands at a place. -/
def IsDirectoryAt (t : FileTree) (place : Place) : Prop :=
  ∃ held, t.at? place = some (.directory held)

/-- Things stand in directories only. -/
theorem isDirectoryAt_of_at?_append {dir : Place} {name : String} {rest : Place} {e : Entry}
    (h : t.at? (dir ++ name :: rest) = some e) : t.IsDirectoryAt dir := by
  rw [at?_append] at h
  obtain ⟨above, habove, hname⟩ := Option.bind_eq_some_iff.mp h
  cases above with
  | directory held => exact ⟨held, habove⟩
  | file | link => exact absurd hname (by simp [Entry.at?])

/-- A directory stands in directories. -/
theorem IsDirectoryAt.above {dir below : Place} (h : t.IsDirectoryAt (dir ++ below)) :
    t.IsDirectoryAt dir := by
  cases below with
  | nil => rwa [List.append_nil] at h
  | cons name rest =>
    obtain ⟨held, hheld⟩ := h
    exact isDirectoryAt_of_at?_append hheld

/-! ### Leading -/

/-- The piece is the name of something in a directory. -/
def IsEntryName (piece : Piece) : Prop := piece ≠ [] ∧ piece ≠ here ∧ piece ≠ up

/-- The place that the target of a link is seen from, if the link stands in `dir`. -/
def origin (dir : Place) (target : String) : Place := if isAbsolute target then [] else dir

/-- **Where pieces lead from a place once links are followed.** -/
inductive Leads (t : FileTree) : Place → List Piece → Place → Prop
  /-- No piece leads nowhere else. -/
  | done (place : Place) : Leads t place [] place
  /-- An empty piece and `.` stay in a directory. -/
  | stay {dir goal : Place} {piece : Piece} {rest : List Piece} : t.IsDirectoryAt dir →
      piece = [] ∨ piece = here → Leads t dir rest goal → Leads t dir (piece :: rest) goal
  /-- `..` leads out of a directory, or nowhere from the root. -/
  | back {dir goal : Place} {rest : List Piece} : t.IsDirectoryAt dir →
      Leads t dir.dropLast rest goal → Leads t dir (up :: rest) goal
  /-- A name leads to what stands under it, if that is no link. -/
  | enter {dir goal : Place} {piece : Piece} {rest : List Piece} {e : Entry} :
      IsEntryName piece → t.at? (dir ++ [String.ofList piece]) = some e →
      (∀ target, e ≠ .link target) → Leads t (dir ++ [String.ofList piece]) rest goal →
      Leads t dir (piece :: rest) goal
  /-- The name of a link leads where its target leads. -/
  | link {dir mid goal : Place} {piece : Piece} {rest : List Piece} {target : String} :
      IsEntryName piece → t.at? (dir ++ [String.ofList piece]) = some (.link target) →
      Leads t (origin dir target) (pieces target.toList) mid → Leads t mid rest goal →
      Leads t dir (piece :: rest) goal

/-- **A path leads to one place at most.** -/
theorem Leads.unique {dir goal goal' : Place} {ps : List Piece} (h : t.Leads dir ps goal)
    (h' : t.Leads dir ps goal') : goal = goal' := by
  induction h generalizing goal' with
  | done =>
    cases h'
    rfl
  | stay _ hpiece _ ih =>
    cases h' with
    | stay _ _ hrest => exact ih hrest
    | back => simp [up, here] at hpiece
    | enter hname | link hname => exact absurd hpiece (not_or.mpr ⟨hname.1, hname.2.1⟩)
  | back _ _ ih =>
    cases h' with
    | stay _ hpiece => simp [up, here] at hpiece
    | back _ hrest => exact ih hrest
    | enter hname | link hname => exact absurd rfl hname.2.2
  | enter hname hat hnolink _ ih =>
    cases h' with
    | stay _ hpiece => exact absurd hpiece (not_or.mpr ⟨hname.1, hname.2.1⟩)
    | back => exact absurd rfl hname.2.2
    | enter _ _ _ hrest => exact ih hrest
    | link _ hat' => exact absurd (Option.some.inj (hat.symm.trans hat')) (hnolink _)
  | link hname hat _ _ ihtarget ih =>
    cases h' with
    | stay _ hpiece => exact absurd hpiece (not_or.mpr ⟨hname.1, hname.2.1⟩)
    | back => exact absurd rfl hname.2.2
    | enter _ hat' hnolink => exact absurd (Option.some.inj (hat'.symm.trans hat)) (hnolink _)
    | link _ hat' htarget hrest =>
      obtain rfl := Entry.link.inj (Option.some.inj (hat.symm.trans hat'))
      obtain rfl := ihtarget htarget
      exact ih hrest

theorem Leads.trans {dir mid goal : Place} {as bs : List Piece} (h : t.Leads dir as mid)
    (h' : t.Leads mid bs goal) : t.Leads dir (as ++ bs) goal := by
  induction h with
  | done => exact h'
  | stay hdir hpiece _ ih => exact .stay hdir hpiece (ih h')
  | back hdir _ ih => exact .back hdir (ih h')
  | enter hname hat hnolink _ ih => exact .enter hname hat hnolink (ih h')
  | link hname hat htarget _ _ ih => exact .link hname hat htarget (ih h')

/-- **Pieces can be followed part by part.** -/
theorem leads_append {dir goal : Place} {as bs : List Piece} :
    t.Leads dir (as ++ bs) goal ↔ ∃ mid, t.Leads dir as mid ∧ t.Leads mid bs goal := by
  refine ⟨fun h => ?_, fun ⟨mid, h, h'⟩ => h.trans h'⟩
  induction as generalizing dir with
  | nil => exact ⟨dir, .done dir, h⟩
  | cons piece as ih =>
    cases h with
    | stay hdir hpiece hrest =>
      obtain ⟨mid, hmid, hgoal⟩ := ih hrest
      exact ⟨mid, .stay hdir hpiece hmid, hgoal⟩
    | back hdir hrest =>
      obtain ⟨mid, hmid, hgoal⟩ := ih hrest
      exact ⟨mid, .back hdir hmid, hgoal⟩
    | enter hname hat hnolink hrest =>
      obtain ⟨mid, hmid, hgoal⟩ := ih hrest
      exact ⟨mid, .enter hname hat hnolink hmid, hgoal⟩
    | link hname hat htarget hrest =>
      obtain ⟨mid, hmid, hgoal⟩ := ih hrest
      exact ⟨mid, .link hname hat htarget hmid, hgoal⟩

/-- Empty pieces can be left out. -/
theorem Leads.withoutEmpty {dir goal : Place} {ps : List Piece} (h : t.Leads dir ps goal) :
    t.Leads dir (ps.filter (!·.isEmpty)) goal := by
  induction h with
  | done place => exact .done place
  | stay hdir hpiece _ ih =>
    rcases hpiece with rfl | rfl
    · exact ih
    · exact .stay hdir (.inr rfl) ih
  | back hdir _ ih => exact .back hdir ih
  | enter hname hat hnolink _ ih =>
    rw [List.filter_cons_of_pos (by simpa using hname.1)]
    exact .enter hname hat hnolink ih
  | link hname hat htarget _ _ ih =>
    rw [List.filter_cons_of_pos (by simpa using hname.1)]
    exact .link hname hat htarget ih

/-- Where a name leads on from, there is a directory. -/
theorem Leads.isDirectoryAt {dir goal : Place} {piece : Piece} {rest : List Piece}
    (h : t.Leads dir (piece :: rest) goal) : t.IsDirectoryAt dir := by
  cases h with
  | stay hdir | back hdir => exact hdir
  | enter _ hat | link _ hat => exact isDirectoryAt_of_at?_append hat

/-- The place that an absolute path means; separators at its end count for nothing. -/
def Denotes (t : FileTree) (path : String) (place : Place) : Prop := t.Leads [] (Path.names path) place

end FileTree

/-! ### Trails -/

namespace Trail

/-- The names that led somewhere did so in the tree, each from the directory above it. -/
def LedIn (t : FileTree) : List (String × Table Entry) → Table Entry → Prop
  | [], held => held = t.held
  | (name, above) :: through, held =>
    above.get? name = some (.directory held) ∧ LedIn t through above

/-- The trail is true to a tree. -/
def StandsIn (trail : Trail) (t : FileTree) : Prop := LedIn t trail.through trail.held

variable {t : FileTree} {trail : Trail}

theorem standsIn_root (t : FileTree) : t.root.StandsIn t := rfl

theorem StandsIn.down (h : trail.StandsIn t) {name : String} {held : Table Entry}
    (hname : trail.held.get? name = some (.directory held)) : (trail.down name held).StandsIn t :=
  ⟨hname, h⟩

theorem StandsIn.up (h : trail.StandsIn t) : trail.up.StandsIn t := by
  obtain ⟨held, through⟩ := trail
  cases through with
  | nil => exact h
  | cons step through => exact h.2

@[simp] theorem place_root (t : FileTree) : t.root.place = [] := rfl

@[simp] theorem place_down (trail : Trail) (name : String) (held : Table Entry) :
    (trail.down name held).place = trail.place ++ [name] := by
  simp [place, down]

@[simp] theorem place_up (trail : Trail) : trail.up.place = trail.place.dropLast := by
  obtain ⟨held, through⟩ := trail
  cases through <;> simp [place, up]

/-- **What a trail holds is what stands below its place.** -/
theorem StandsIn.at?_place (h : trail.StandsIn t) (below : Place) :
    t.at? (trail.place ++ below) = (Entry.directory trail.held).at? below := by
  obtain ⟨held, through⟩ := trail
  induction through generalizing held below with
  | nil =>
    obtain rfl : held = t.held := h
    rfl
  | cons step through ih =>
    obtain ⟨name, above⟩ := step
    obtain ⟨hname, habove⟩ : above.get? name = some (.directory held) ∧ LedIn t through above := h
    have hstep := ih (name :: below) above habove
    simp only [place, List.map_cons, List.reverse_cons, List.append_assoc, List.singleton_append]
      at hstep ⊢
    rw [hstep]
    simp only [Entry.at?, hname, Option.bind_some]

theorem StandsIn.isDirectoryAt (h : trail.StandsIn t) : t.IsDirectoryAt trail.place := by
  refine ⟨trail.held, ?_⟩
  have hplace := h.at?_place []
  rwa [List.append_nil] at hplace

theorem StandsIn.at?_name (h : trail.StandsIn t) (name : String) :
    t.at? (trail.place ++ [name]) = trail.held.get? name := by
  rw [h.at?_place]
  cases hname : trail.held.get? name <;> simp [Entry.at?, hname]

end Trail

/-! ### Walks -/

namespace FileTree

variable {t : FileTree}

/-- A walk agrees with the tree: if it ends at a file or a directory, its pieces lead there. -/
def Agrees (t : FileTree) (dir : Place) (ps : List Piece) : Walk → Prop
  | .file goal => t.at? goal = some .file ∧ t.Leads dir ps goal
  | .directory goal => t.IsDirectoryAt goal ∧ t.Leads dir ps goal
  | .absent _ _ _ => True
  | .blocked => True
  | .refused _ => True

theorem Agrees.of_leads {dir dir' : Place} {ps ps' : List Piece} {w : Walk} (h : t.Agrees dir ps w)
    (hleads : ∀ goal, t.Leads dir ps goal → t.Leads dir' ps' goal) : t.Agrees dir' ps' w := by
  cases w with
  | file goal | directory goal => exact ⟨h.1, hleads goal h.2⟩
  | absent | blocked | refused => trivial

/-- Behind a link, a walk goes on with the pieces of the target and those that are left. -/
theorem Agrees.link {dir : Place} {piece : Piece} {rest : List Piece} {target : String} {w : Walk}
    (hname : IsEntryName piece) (hat : t.at? (dir ++ [String.ofList piece]) = some (.link target))
    (h : t.Agrees (origin dir target) (pieces target.toList ++ rest) w) :
    t.Agrees dir (piece :: rest) w := by
  refine h.of_leads fun goal hgoal => ?_
  obtain ⟨mid, htarget, hrest⟩ := leads_append.mp hgoal
  exact .link hname hat htarget hrest

/-- **A stretch leads where its pieces lead**, if what follows a link does. -/
theorem agrees_stretch {purpose : Purpose} {onLink : Trail → List Piece → Walk}
    (honLink : ∀ trail ps, trail.StandsIn t → t.Agrees trail.place ps (onLink trail ps))
    {trail : Trail} (h : trail.StandsIn t) (ps : List Piece) :
    t.Agrees trail.place ps (t.stretch purpose onLink trail ps) := by
  induction ps generalizing trail with
  | nil => exact ⟨h.isDirectoryAt, .done _⟩
  | cons piece rest ih =>
    rw [stretch]
    split
    · next hstay => exact (ih h).of_leads fun _ hrest => .stay h.isDirectoryAt hstay hrest
    next hstay =>
    split
    · next hup =>
      subst hup
      refine (ih h.up).of_leads fun _ hrest => .back h.isDirectoryAt ?_
      rwa [Trail.place_up] at hrest
    next hup =>
    split
    · trivial
    split
    · trivial
    have hname : IsEntryName piece := ⟨fun h => hstay (.inl h), fun h => hstay (.inr h), hup⟩
    have hat := h.at?_name (String.ofList piece)
    dsimp only
    split
    · trivial
    · next held hget =>
      rw [hget] at hat
      refine (ih (h.down hget)).of_leads fun _ hrest => .enter hname hat (by simp) ?_
      rwa [Trail.place_down] at hrest
    · next hget =>
      rw [hget] at hat
      split
      · next hrest =>
        subst hrest
        exact ⟨hat, .enter hname hat (by simp) (.done _)⟩
      · trivial
    · next target hget =>
      rw [hget] at hat
      -- the target is seen from the root or from the directory of the link
      have hstands : (if isAbsolute target then t.root else trail).StandsIn t := by
        split
        · exact Trail.standsIn_root t
        · exact h
      have horigin : (if isAbsolute target then t.root else trail).place
          = origin trail.place target := apply_ite Trail.place _ _ _
      refine Agrees.link hname hat ?_
      rw [← horigin]
      exact honLink _ _ hstands

/-- **A walk leads where its pieces lead**, over however many links. -/
theorem agrees_walk (purpose : Purpose) (links : Nat) {trail : Trail} (h : trail.StandsIn t)
    (ps : List Piece) : t.Agrees trail.place ps (t.walk purpose links trail ps) := by
  induction links generalizing trail ps with
  | zero =>
    refine agrees_stretch (fun _ _ _ => ?_) h ps
    trivial
  | succ links ih => exact agrees_stretch (fun _ ps htrail => ih htrail ps) h ps

/-- **A path that is followed to a file means the place of the file.** -/
theorem denotes_of_follow {purpose : Purpose} {path : String} {file : Place}
    (h : t.follow purpose path = .file file) : t.at? file = some .file ∧ t.Denotes path file := by
  have hagrees := agrees_walk purpose maxLinks (Trail.standsIn_root t) (pieces path.toList)
  unfold follow at h
  split at h
  · exact absurd h (by simp)
  · rw [h] at hagrees
    exact ⟨hagrees.1, hagrees.2.withoutEmpty⟩

/-- A file test that finds a file finds what the path means. -/
theorem exists_denotes_of_stat {path : String} (h : t.stat path = .file) :
    ∃ file, t.at? file = some .file ∧ t.Denotes path file := by
  unfold stat at h
  split at h
  · next file hfollow => exact ⟨file, denotes_of_follow hfollow⟩
  all_goals exact absurd h (by simp)

end FileTree

end ConfigSource
