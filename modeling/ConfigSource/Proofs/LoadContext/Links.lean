import ConfigSource.Proofs.FileTree.Leads
import ConfigSource.Proofs.LoadContext.Search

/-!
# What is served through links

A search of roots holds the *names* of a candidate against those of its root, but the file test that
decides about it follows links. So the search keeps inside the roots by name only: what it serves
stands where the links lead.

* The path that is served goes down from its root by names, and the root is a directory. If no link
  is met on the way, the file stands below that directory
  (`ConfigSource.FileTree.Leads.straight_or_link`).
* Where a link is met, the file stands inside exactly if the link leads back inside
  (`ConfigSource.LoadContext.liesIn_iff_of_served`). A directory with no link out of it is left by
  no name (`ConfigSource.FileTree.Leads.prefix_of_sealed`).
* A link that leads out of a root is followed, and what is outside is served
  (`ConfigSource.FileTree.not_servesInside_leaky`).
-/

open ConfigSource.Path

namespace ConfigSource

namespace FileTree

variable {t : FileTree}

/-! ### Going down by names -/

/-- The place that names lead to where no link is met. -/
def spelled (ns : List Piece) : Place := ns.map String.ofList

/-- A place lies in a directory: it is further down. -/
def LiesIn (dir place : Place) : Prop := dir <+: place ∧ dir ≠ place

/-- No link that stands in a directory or further down leads out of it. -/
def Sealed (t : FileTree) (top : Place) : Prop :=
  ∀ dir name target goal, top <+: dir → t.at? (dir ++ [name]) = some (.link target) →
    t.Leads (origin dir target) (pieces target.toList) goal → top <+: goal

/-- The link that is met on the way down from a directory leads back into it, with the names that
are left. -/
def LinkReturns (t : FileTree) (dir : Place) (below : List Piece) : Prop :=
  ∀ before piece after target goal, below = before ++ piece :: after →
    t.at? (dir ++ spelled before ++ [String.ofList piece]) = some (.link target) →
    t.Leads (origin (dir ++ spelled before) target) (pieces target.toList ++ after) goal →
    LiesIn dir goal

theorem isEntryName_of_isName {p : Piece} (h : IsName p) : IsEntryName p := ⟨h.1, h.2.1, h.2.2.1⟩

/-- **What a name leads on to**: what stands under it, or where the target of the link leads. -/
theorem Leads.name_cases {dir goal : Place} {piece : Piece} {rest : List Piece}
    (hname : IsEntryName piece) (h : t.Leads dir (piece :: rest) goal) :
    t.Leads (dir ++ [String.ofList piece]) rest goal ∨
      ∃ target mid, t.at? (dir ++ [String.ofList piece]) = some (.link target) ∧
        t.Leads (origin dir target) (pieces target.toList) mid ∧ t.Leads mid rest goal := by
  cases h with
  | stay _ hpiece => exact absurd hpiece (not_or.mpr ⟨hname.1, hname.2.1⟩)
  | back => exact absurd rfl hname.2.2
  | enter _ _ _ hrest => exact Or.inl hrest
  | link _ hat htarget hrest => exact Or.inr ⟨_, _, hat, htarget, hrest⟩

/-- **Names lead straight down, or to a first link.** -/
theorem Leads.straight_or_link {dir goal : Place} {ns : List Piece} (hns : ∀ n ∈ ns, IsEntryName n)
    (h : t.Leads dir ns goal) :
    goal = dir ++ spelled ns ∨
      ∃ before piece after target, ns = before ++ piece :: after ∧
        t.at? (dir ++ spelled before ++ [String.ofList piece]) = some (.link target) ∧
        t.Leads (origin (dir ++ spelled before) target) (pieces target.toList ++ after) goal := by
  induction ns generalizing dir with
  | nil =>
    cases h
    exact Or.inl (List.append_nil _).symm
  | cons n ns ih =>
    obtain ⟨hn, hns⟩ := List.forall_mem_cons.mp hns
    rcases h.name_cases hn with hrest | ⟨target, mid, hat, htarget, hrest⟩
    · have hdown (ps : List Piece) :
          dir ++ [String.ofList n] ++ spelled ps = dir ++ spelled (n :: ps) := by
        simp [spelled]
      rcases ih hns hrest with hgoal | ⟨before, piece, after, target, rfl, hat, hgoal⟩
      · exact Or.inl (hgoal.trans (hdown ns))
      · rw [hdown] at hat hgoal
        exact Or.inr ⟨n :: before, piece, after, target, rfl, hat, hgoal⟩
    · refine Or.inr ⟨[], n, ns, target, rfl, ?_, ?_⟩
      · simpa [spelled] using hat
      · simpa [spelled] using htarget.trans hrest

/-- **A directory that no link leads out of is left by no name.** -/
theorem Leads.prefix_of_sealed {top dir goal : Place} {ns : List Piece} (hsealed : t.Sealed top)
    (hns : ∀ n ∈ ns, IsEntryName n) (hdir : top <+: dir) (h : t.Leads dir ns goal) :
    top <+: goal := by
  induction ns generalizing dir with
  | nil =>
    cases h
    exact hdir
  | cons n ns ih =>
    obtain ⟨hn, hns⟩ := List.forall_mem_cons.mp hns
    rcases h.name_cases hn with hrest | ⟨target, mid, hat, htarget, hrest⟩
    · exact ih hns (hdir.trans (List.prefix_append _ _)) hrest
    · exact ih hns (hsealed dir _ target mid hdir hat htarget) hrest

/-- Names lead straight down to a directory that stands there. -/
theorem leads_spelled {dir : Place} {ns : List Piece} (hns : ∀ n ∈ ns, IsEntryName n)
    (h : t.IsDirectoryAt (dir ++ spelled ns)) : t.Leads dir ns (dir ++ spelled ns) := by
  induction ns generalizing dir with
  | nil =>
    rw [spelled, List.map_nil, List.append_nil]
    exact .done dir
  | cons n ns ih =>
    obtain ⟨hn, hns⟩ := List.forall_mem_cons.mp hns
    have hdown : dir ++ spelled (n :: ns) = dir ++ [String.ofList n] ++ spelled ns := by
      simp [spelled]
    rw [hdown] at h ⊢
    obtain ⟨held, hheld⟩ := h.above
    exact .enter hn hheld (by simp) (ih hns h)

/-- The way down to a link goes on where the link leads. -/
theorem leads_of_link {dir goal : Place} {before after : List Piece} {piece : Piece}
    {target : String} (hns : ∀ n ∈ before ++ piece :: after, IsEntryName n)
    (hat : t.at? (dir ++ spelled before ++ [String.ofList piece]) = some (.link target))
    (h : t.Leads (origin (dir ++ spelled before) target) (pieces target.toList ++ after) goal) :
    t.Leads dir (before ++ piece :: after) goal := by
  obtain ⟨hbefore, hafter⟩ := List.forall_mem_append.mp hns
  obtain ⟨mid, htarget, hrest⟩ := leads_append.mp h
  have hway := leads_spelled hbefore (isDirectoryAt_of_at?_append hat)
  exact hway.trans (.link (hafter piece List.mem_cons_self) hat htarget hrest)

theorem ne_of_directory_of_file {dir file : Place} (hdir : t.IsDirectoryAt dir)
    (hfile : t.at? file = some .file) : dir ≠ file := by
  rintro rfl
  obtain ⟨held, hheld⟩ := hdir
  exact absurd (hheld.symm.trans hfile) (by simp)

/-- **By names, a file is found inside exactly if the link on the way leads back inside.** -/
theorem liesIn_iff_linkReturns {dir file : Place} {below : List Piece}
    (hbelow : ∀ n ∈ below, IsEntryName n) (hdir : t.IsDirectoryAt dir)
    (hfile : t.at? file = some .file) (h : t.Leads dir below file) :
    LiesIn dir file ↔ t.LinkReturns dir below := by
  constructor
  · intro hin before piece after target goal hcut hat hgoal
    subst hcut
    exact h.unique (leads_of_link hbelow hat hgoal) ▸ hin
  · intro hreturns
    rcases h.straight_or_link hbelow with hstraight | ⟨before, piece, after, target, hcut, hat, hgoal⟩
    · exact ⟨hstraight ▸ List.prefix_append _ _, ne_of_directory_of_file hdir hfile⟩
    · exact hreturns before piece after target file hcut hat hgoal

/-! ### Being served -/

/-- A path is found under a root: the search ends there, and its test finds a file. -/
def FoundUnder (t : FileTree) (resource : String) (roots : List String) (root path : String) :
    Prop :=
  ∃ before after, roots = before ++ root :: after ∧
    (∀ r ∈ before, ¬EndsSearch t.stat resource r) ∧ EndsSearch t.stat resource root ∧
    path = candidate root resource ∧ t.stat path = .file

/-- **Only files inside a root are served**: whatever is found under a root, the file that the path
means lies in the directory that the root means. -/
def ServesInside (t : FileTree) : Prop :=
  ∀ (start : String) (directories : List String) (resource root path : String) (dir file : Place),
    t.FoundUnder resource (directories.map (resolve start)) root path →
    t.Denotes root dir → t.Denotes path file → LiesIn dir file

theorem exists_foundUnder {resource path : String} {roots : List String}
    (h : IsSearchable resource roots)
    (hfound : (search t.stat resource roots).outcome = .ok (some path)) :
    ∃ root, t.FoundUnder resource roots root path := by
  obtain ⟨before, root, after, hroots, hbefore, hends, hstat, hpath⟩ := exists_split_of_found h hfound
  exact ⟨root, before, after, hroots, hbefore, hends, hpath, hstat⟩

/-- **What a path under a root means**: the root is a directory, and the names behind it lead from
there to the file. -/
theorem FoundUnder.denotes {start resource root path : String} {directories : List String}
    (h : t.FoundUnder resource (directories.map (resolve start)) root path) :
    ∃ below dir file, Path.names path = Path.names root ++ below ∧ (∀ n ∈ below, IsName n) ∧
      t.Denotes root dir ∧ t.IsDirectoryAt dir ∧ t.Denotes path file ∧ t.at? file = some .file ∧
      t.Leads dir below file := by
  obtain ⟨before, after, hroots, -, ⟨⟨⟨below, hbelow⟩, hne⟩, -⟩, rfl, hstat⟩ := h
  have hmem : root ∈ directories.map (resolve start) :=
    hroots ▸ List.mem_append_right _ List.mem_cons_self
  obtain ⟨directory, -, rfl⟩ := List.mem_map.mp hmem
  have hnames := isName_of_mem_names_candidate start directory resource
  obtain ⟨file, hfile, hdenotes⟩ := exists_denotes_of_stat hstat
  have hway := hdenotes
  rw [Denotes, ← hbelow] at hway
  obtain ⟨dir, hdir, hrest⟩ := leads_append.mp hway
  refine ⟨below, dir, file, hbelow.symm, fun n hn => hnames n ?_, hdir, ?_, hdenotes, hfile, hrest⟩
  · rw [← hbelow]
    exact List.mem_append_right _ hn
  -- there is a name behind the root, and names lead on from directories only
  · cases below with
    | nil => exact absurd ((List.append_nil _).symm.trans hbelow) hne
    | cons n below => exact hrest.isDirectoryAt

/-! ### A link out of a root -/

/-- A root `/r` with a link to the file `/s`, which is not in it. -/
def leaky : FileTree := ⟨[("s", .file), ("r", .directory [("l", .link "../s")])]⟩

/-- **A link out of a root is followed**: the file `/s` is served under the root `/r`. -/
theorem not_servesInside_leaky : ¬leaky.ServesInside := by
  intro hserves
  have hfound : leaky.FoundUnder "l" (["/r"].map (resolve "/")) "/r" "/r/l" := by
    refine ⟨[], [], ?_, by simp, ⟨?_, Or.inl ?_⟩, ?_, ?_⟩ <;> decide +kernel
  have hroot : leaky.Denotes "/r" ["r"] := by
    have hnames : Path.names "/r" = [['r']] := by decide +kernel
    rw [Denotes, hnames]
    exact .enter (by simp [IsEntryName, here, up]) rfl (by simp) (.done _)
  have hpath : leaky.Denotes "/r/l" ["s"] := by
    have hfollow : leaky.follow .look "/r/l" = .file ["s"] := by rfl
    exact (denotes_of_follow hfollow).2
  exact absurd (hserves "/" ["/r"] "l" "/r" "/r/l" ["r"] ["s"] hfound hroot hpath).1 (by decide)

end FileTree

namespace LoadContext

open FileTree

/-- **What is served under a root lies inside it exactly if no link on the way leads out.** Under
every root the search of which ends at a file, the root means a directory and the path a file. The
file lies in the directory exactly if the link that is met on the way down, if one is met, leads
back into it; it does whenever no link below the directory leads out of it. -/
theorem liesIn_iff_of_served (t : FileTree) (identity : Identity) (name start : String)
    (directories : List String) (resource path : String)
    (h : (ofRoots identity name start directories).locate t.stat resource = .ok (some path)) :
    ∃ root below dir file,
      t.FoundUnder resource (directories.map (resolve start)) root path ∧
      Path.names path = Path.names root ++ below ∧ t.Denotes root dir ∧ t.IsDirectoryAt dir ∧
      t.Denotes path file ∧ t.at? file = some .file ∧
      (LiesIn dir file ↔ t.LinkReturns dir below) ∧ (t.Sealed dir → LiesIn dir file) := by
  have hsearchable : IsSearchable resource (directories.map (resolve start)) := by
    intro root hroot
    obtain ⟨directory, -, rfl⟩ := List.mem_map.mp hroot
    exact isConfined_iff start directory resource
  obtain ⟨root, hfound⟩ := exists_foundUnder hsearchable h
  obtain ⟨below, dir, file, hcut, hnames, hroot, hdir, hpath, hfile, hway⟩ := hfound.denotes
  have hbelow : ∀ n ∈ below, IsEntryName n := fun n hn => isEntryName_of_isName (hnames n hn)
  refine ⟨root, below, dir, file, hfound, hcut, hroot, hdir, hpath, hfile,
    liesIn_iff_linkReturns hbelow hdir hfile hway, fun hsealed => ⟨?_, ?_⟩⟩
  · exact hway.prefix_of_sealed hsealed hbelow (List.prefix_refl dir)
  · exact ne_of_directory_of_file hdir hfile

/-- The link `l` in the directory `/r` leads to a file beside that directory, and is served. -/
theorem liesIn_iff_of_served_leaky :
    (ofRoots 0 "roots" "/" ["/r"]).locate leaky.stat "l" = .ok (some "/r/l") ∧
      ∃ root below dir file, leaky.Denotes root dir ∧ leaky.Denotes "/r/l" file ∧
        (LiesIn dir file ↔ leaky.LinkReturns dir below) := by
  have hserved : (ofRoots 0 "roots" "/" ["/r"]).locate leaky.stat "l" = .ok (some "/r/l") := by rfl
  obtain ⟨root, below, dir, file, -, -, hroot, -, hpath, -, hin, -⟩ :=
    liesIn_iff_of_served leaky 0 "roots" "/" ["/r"] "l" "/r/l" hserved
  exact ⟨hserved, root, below, dir, file, hroot, hpath, hin⟩

end LoadContext

end ConfigSource
