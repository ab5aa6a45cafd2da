import ConfigSource.Settings.Source

/-!
# Merging settings

The tables of several sources are **merged** by writing them one after the other into one table over
a fallback. A value that is `undefined` is not written, so it hides nothing; of all others the last
one wins, and the name of its source is kept beside it as its **provenance**.

What a write does to the table is the business of `ConfigSource.Layered`; provenance is kept of
every key but the one that replaces the fallback. What is found in the fallback has none.

* `ConfigSource.Merged`, `ConfigSource.Merged.assign`: the merged table and one write;
* `ConfigSource.Merged.ofSources`: the merged table of a list of sources, or what the first failing
  source throws, and how many sources were loaded for it;
* `ConfigSource.Merged.lookup`: the value that counts for a key.
-/

namespace ConfigSource

/-- The settings of several sources. -/
structure Merged where
  /-- The values that the sources gave, the last of each key. -/
  table : Layered
  /-- The source of each value. -/
  provenance : Table String

namespace Merged

/-- No settings yet. -/
def empty : Merged := ⟨.empty, []⟩

/-- The provenance after writing `key`; the key of the fallback has none. -/
def recordProvenance (provenance : Table String) (key source : String) : Table String :=
  if key = Layered.fallbackKey then provenance else provenance.set key source

/-- Writes one setting. -/
def assign (m : Merged) (source key : String) (value : Value) : Merged :=
  if value.isUndefined then m
  else ⟨m.table.assign key value, recordProvenance m.provenance key source⟩

/-- Writes the settings of one source. -/
def assignAll (m : Merged) (source : String) (settings : Table Value) : Merged :=
  settings.foldl (fun m s => m.assign source s.1 s.2) m

/-- What comes of loading sources one after the other. -/
structure Loading where
  /-- How many sources were loaded, one that failed included. -/
  loaded : Nat
  /-- The merged table, or what the first failing source throws. -/
  outcome : Except Value Merged

/-- Writes the settings of several sources, up to the first that fails; `loaded` sources were loaded
before. -/
def addSources (m : Merged) (loaded : Nat) : List Source → Loading
  | [] => ⟨loaded, .ok m⟩
  | source :: rest =>
    match source.load with
    | .ok settings => (m.assignAll source.name settings).addSources (loaded + 1) rest
    | .error e => ⟨loaded + 1, .error e⟩

/-- The settings of a list of sources. -/
def ofSources (sources : List Source) : Loading := empty.addSources 0 sources

/-- The value that counts for `key`. -/
def lookup (m : Merged) (key : String) : Value := m.table.lookup key

/-- The source of the value that counts for `key`, where it is known. -/
def sourceOf (m : Merged) (key : String) : String := (m.provenance.get? key).getD "unknown"

/-- The keys that were given, in reading order. -/
def keys (m : Merged) : List String := Table.keys (Table.ordered m.table.values)

end Merged

end ConfigSource
