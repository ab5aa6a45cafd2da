import ConfigSource.FileTree.Walk

/-!
# Writing to a file tree

A change of a tree may be refused on the way, and what was done before stays done. Files are written
into directories, which are made as far as they are missing; a link can be made only where nothing
stands.

* `ConfigSource.FileTree.Change`: a change that may be refused;
* `ConfigSource.FileTree.makeDirectory`: making a directory and those above it;
* `ConfigSource.FileTree.Writing`, `ConfigSource.FileTree.writeAll`: what is to be written, and
  writing it;
* `ConfigSource.FileTree.ofDirectory`: the tree that holds one directory.
-/

namespace ConfigSource

namespace FileTree

/-- A change of a tree. It may be refused on the way; what was done before stays done. -/
abbrev Change (α : Type) := ExceptT SystemError (StateM FileTree) α

/-- Puts an entry at the spot of a path, unless something stands there. Behind a separator only a
directory can be put. -/
def putNew (path : String) (e : Entry) : Change Unit := do
  match (← get).spot path with
  | .error e => throw e
  | .ok p =>
    if ((← get).at? p).isSome then throw .exists
    else if Path.endsWithSeparator path && !e.isDirectory then throw .missing
    else modify fun t => t.put p e

/-! ### Directories -/

/-- Takes what a path leads to for a directory that was not made because of the error `e`. With
`waiting`, another one is to be made in it. -/
def acceptDirectory (waiting : Bool) (path : String) (e : SystemError) : Change Unit := do
  match (← get).follow .look path with
  | .directory _ => pure ()
  | .file _ => throw (if e = .exists ∧ waiting then .notDirectory else .exists)
  | .absent _ _ _ => throw .missing
  | .blocked => throw .notDirectory
  | .refused e => throw e

/-- Makes a directory, or takes the one that is there; says whether the directory above it is
missing. -/
def makeOne (waiting : Bool) (path : String) : Change Bool := do
  try
    putNew path (.directory [])
    pure false
  catch e =>
    match e with
    | .missing => pure true
    | .notDirectory => throw .notDirectory
    | e => do
      acceptDirectory waiting path e
      pure false

/-- Makes a directory and those above it, at most `depth` of them, as far as they are missing. -/
def makeWithin (waiting : Bool) : Nat → String → Change Unit
  | 0, _ => throw .missing
  | depth + 1, path => do
    if ← makeOne waiting path then
      makeWithin true depth (Path.dirname path)
      if ← makeOne waiting path then throw .missing

/-- Makes a directory and those above it, as far as they are missing. -/
def makeDirectory (path : String) : Change Unit :=
  makeWithin false (Path.pieces path.toList).length path

/-- A tree that holds only a directory, and those above it. -/
def ofDirectory (path : String) : FileTree := ((makeDirectory path).run.run ⟨[]⟩).2

/-! ### Files and links -/

/-- What is to be written at an absolute path. -/
inductive Writing where
  /-- A regular file. -/
  | file (path : String)
  /-- A directory. -/
  | directory (path : String)
  /-- A symbolic link with its target text. -/
  | link (path target : String)

/-- The path at which something is to be written. -/
def Writing.path : Writing → String
  | file path => path
  | directory path => path
  | link path _ => path

/-- Writes a regular file into a directory that is there; a file that is there is written over. A
link is followed to where the file is to stand. -/
def writeFile (path : String) : Change Unit := do
  match (← get).follow .create path with
  | .file _ => pure ()
  | .directory _ => throw .isDirectory
  | .absent parent name [] => modify fun t => t.put (parent ++ [name]) .file
  | .absent _ _ _ => throw .missing
  | .blocked => throw .notDirectory
  | .refused e => throw e

/-- Makes a symbolic link where nothing stands. The texts are looked at before the tree: a zero in
either of them is refused before an empty target. -/
def makeLink (path target : String) : Change Unit := do
  if misspelled? path = some .zeroInPath then throw .zeroInPath
  if target.isEmpty then throw .missing
  match misspelled? target with
  | some e => throw e
  | none => putNew path (.link target)

/-- Writes one entry, after the directories above it. -/
def write (w : Writing) : Change Unit := do
  makeDirectory (Path.dirname w.path)
  match w with
  | .file path => writeFile path
  | .directory path => makeDirectory path
  | .link path target => makeLink path target

/-- Writes entries, one after the other, up to the first that is refused. -/
def writeAll : List Writing → Change Unit
  | [] => pure ()
  | w :: rest => do
    write w
    writeAll rest

end FileTree

end ConfigSource
