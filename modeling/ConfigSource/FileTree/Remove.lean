import ConfigSource.FileTree.Write

/-!
# Removing from a file tree

What stands at a path is removed with all that stands below it. A link is removed itself, and a path
that a separator ends means the directory it leads to, which cannot be removed by way of a link.

A directory is emptied first, one entry after the other in the order of their names, and every entry
is looked up anew by its path. The path may lead over a link that is removed on the way; from then
on nothing is found by it, and what is not found counts as removed.

* `ConfigSource.FileTree.isDirectoryAt`: what stands at a path itself;
* `ConfigSource.FileTree.removeEmpty`: removing a directory that holds nothing;
* `ConfigSource.FileTree.remove`: removing what stands at a path.
-/

namespace ConfigSource

namespace FileTree

/-- Whether a directory stands at a path itself: a link is not followed, unless a separator ends
the path. -/
def isDirectoryAt (t : FileTree) (path : String) : Except SystemError Bool :=
  if Path.endsWithSeparator path then (t.follow .look path).directory?.map fun _ => true
  else
    match t.spot path with
    | .error e => .error e
    | .ok p =>
      match t.at? p with
      | some e => .ok e.isDirectory
      | none => .error .missing

/-- The names in a directory, in the order of their characters. -/
def names (held : Table Entry) : List String := held.keys.mergeSort fun a b => decide (a ≤ b)

/-- Removes the directory at the spot of a path if it holds nothing, and gives the names of what it
holds otherwise. -/
def removeEmpty (path : String) : Change (List String) := do
  match (← get).spot path with
  | .error e => throw e
  | .ok p =>
    match (← get).at? p with
    | none => throw .missing
    | some (.directory []) => do
      modify (·.without p)
      pure []
    | some (.directory held) => pure (names held)
    | some _ => throw .notDirectory

/-- Removes the file or the link at the spot of a path. -/
def removeLeaf (path : String) : Change Unit := do
  match (← get).spot path with
  | .error e => throw e
  | .ok p => modify (·.without p)

/-- A change to which it is all the same if there is nothing to remove. -/
def ifThere (change : Change Unit) : Change Unit :=
  tryCatch change fun e => if e = .missing then pure () else throw e

/-- Removes what stands at a path, and what is below it, down to `depth` directories. -/
def removeWithin : Nat → String → Change Unit
  | 0, _ => throw .nameTooLong
  | depth + 1, path => do
    match (← get).isDirectoryAt path with
    | .error e => throw e
    | .ok true =>
      let held ← removeEmpty path
      if held ≠ [] then
        held.forM fun name => ifThere (removeWithin depth (path ++ "/" ++ name))
        ifThere (do let _ ← removeEmpty path)
    | .ok false => removeLeaf path

/-- Removes what stands at a path, and all below it; a link is removed itself. Every directory
further down makes the path longer, and a path has at most `maxPathBytes` bytes. -/
def remove (path : String) : Change Unit := removeWithin (maxPathBytes + 1) path

end FileTree

end ConfigSource
