import ConfigSource.Error
import ConfigSource.Path.Relative
import ConfigSource.Table

/-!
# File trees

A **file tree** is a directory with everything below it: an **entry** is a regular file, a symbolic
link with its target text, or a directory, which holds entries under their names. A **place** is
given by the names from the root down. What stands there is found name by name; a link on the way is
not followed, so nothing stands below it.

* `ConfigSource.Entry`, `ConfigSource.Place`, `ConfigSource.FileTree`;
* `ConfigSource.FileTree.at?`: what stands at a place;
* `ConfigSource.FileTree.put`, `ConfigSource.FileTree.without`: the tree with an entry at a place,
  and with none.
-/

namespace ConfigSource

/-- What stands at a place. -/
inductive Entry where
  /-- A regular file. -/
  | file
  /-- A directory with what it holds, by name. -/
  | directory (held : List (String × Entry))
  /-- A symbolic link with its target text. -/
  | link (target : String)

/-- A place: the names from the root down. -/
abbrev Place := List String

namespace Entry

/-- Whether the entry is a directory. -/
def isDirectory : Entry → Bool
  | directory _ => true
  | _ => false

/-- What stands at a place below an entry. -/
def at? : Place → Entry → Option Entry
  | [], e => some e
  | name :: rest, directory held => (Table.get? held name).bind (at? rest)
  | _ :: _, _ => none

/-- What a directory holds once `new` stands at a place below it, or nothing. -/
def alter (new : Option Entry) : Place → Table Entry → Table Entry
  | [], held => held
  | name :: rest, held =>
    if rest = [] then
      match new with
      | some e => held.set name e
      | none => held.restrict fun key => key != name
    else
      match held.get? name with
      | some (directory inner) => held.set name (directory (alter new rest inner))
      | _ => held

end Entry

/-- A tree of files. -/
structure FileTree where
  /-- What the root holds, by name. -/
  held : Table Entry

namespace FileTree

/-- What stands at a place. -/
def at? (t : FileTree) (p : Place) : Option Entry := (Entry.directory t.held).at? p

/-- The tree with an entry at a place in a directory that is there. -/
def put (t : FileTree) (p : Place) (e : Entry) : FileTree := ⟨Entry.alter (some e) p t.held⟩

/-- The tree without a place and all below it. -/
def without (t : FileTree) (p : Place) : FileTree := ⟨Entry.alter none p t.held⟩

end FileTree

end ConfigSource
