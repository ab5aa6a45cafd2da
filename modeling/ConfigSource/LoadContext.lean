import ConfigSource.FileTree.Walk

/-!
# Load contexts

A **load context** says where a resource of a given name is. It is either a table of names, or a
list of **roots**: directories that are searched in order for a regular file.

The name of a resource is read from a root, whatever separators it begins with. A name that leads
out of a root, or to the root itself, is not looked for there: the file test is made only on
**candidates** that lie below their root.

* `ConfigSource.LoadContext`: name, identity and what the context looks into;
* `ConfigSource.candidate`: what a root makes of a name;
* `ConfigSource.Search`, `ConfigSource.search`: the file tests that are made, and the answer;
* `ConfigSource.LoadContext.locate`: the location of a resource.
-/

namespace ConfigSource

/-- What tells an instance from all others. -/
abbrev Identity := Nat

/-- Where a load context looks. -/
inductive Lookup where
  /-- In a table of names and locations. -/
  | table (locations : Table String)
  /-- Below these directories, in order. -/
  | roots (directories : List String)

/-- Says where resources are. -/
structure LoadContext where
  /-- What tells the context from others. -/
  identity : Identity
  /-- The name under which it is spoken of. -/
  name : String
  /-- Where it looks. -/
  lookup : Lookup

/-- The name of a resource without the separators it begins with. -/
def withoutLeading (resource : String) : String :=
  String.ofList (resource.toList.dropWhile (· == '/'))

/-- What a root makes of the name of a resource. -/
def candidate (root resource : String) : String := Path.join root (withoutLeading resource)

/-- Whether the candidate of a root lies below it. -/
def isConfined (root resource : String) : Bool :=
  Path.isBelow (Path.between root (candidate root resource))

/-- A search of roots: the file tests it made, in order, and what it found. -/
structure Search where
  /-- The paths that were tested. -/
  probes : List String
  /-- The file that was found, or the refusal that ended the search. -/
  outcome : Except SystemError (Option String)

/-- A search that made one more file test before. -/
def Search.after (path : String) (s : Search) : Search := ⟨path :: s.probes, s.outcome⟩

/-- Searches roots in order for a regular file. A test that is refused ends the search. -/
def search (stat : String → Stat) (resource : String) : List String → Search
  | [] => ⟨[], .ok none⟩
  | root :: rest =>
    if isConfined root resource then
      match stat (candidate root resource) with
      | .file => ⟨[candidate root resource], .ok (some (candidate root resource))⟩
      | .failed e => ⟨[candidate root resource], .error e⟩
      | .other => (search stat resource rest).after (candidate root resource)
      | .missing => (search stat resource rest).after (candidate root resource)
    else search stat resource rest

namespace LoadContext

/-- A context over directories, each seen from `start`. -/
def ofRoots (identity : Identity) (name start : String) (directories : List String) :
    LoadContext :=
  ⟨identity, name, .roots (directories.map (Path.resolve start))⟩

/-- A context over the working directory. -/
def workingDirectory (identity : Identity) (directory : String) : LoadContext :=
  ofRoots identity "cwd" directory [directory]

/-- The location of a resource. -/
def locate (c : LoadContext) (stat : String → Stat) (resource : String) :
    Except SystemError (Option String) :=
  match c.lookup with
  | .table locations => .ok (locations.get? resource)
  | .roots directories => (search stat resource directories).outcome

end LoadContext

end ConfigSource
