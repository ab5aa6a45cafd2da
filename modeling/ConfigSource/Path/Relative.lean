import ConfigSource.Path

/-!
# One path seen from another

Absolute paths without a trailing separator stand for places. `ConfigSource.Path.resolve` finds the
place that a path means from a given place, and `ConfigSource.Path.between` the way from one place
to another: as many `..` as there are pieces to leave, and then the pieces to enter.

* `ConfigSource.Path.place`: the place of an absolute path;
* `ConfigSource.Path.resolve`: the place of a path, seen from an absolute one;
* `ConfigSource.Path.between`: the way from one place to another;
* `ConfigSource.Path.isBelow`: whether that way neither stays nor leaves.
-/

namespace ConfigSource

namespace Path

/-- The pieces of a path, read from the root. -/
def placeSegments (s : String) : List Piece := resolvePieces false (pieces s.toList)

/-- The absolute path of pieces, without a trailing separator. -/
def spellPlace (segments : List Piece) : String := String.ofList ('/' :: joinPieces segments)

/-- The place of an absolute path. -/
def place (s : String) : String := spellPlace (placeSegments s)

/-- The place of a path, seen from `start`. -/
def resolve (start path : String) : String :=
  if isAbsolute path then place path else place (start ++ "/" ++ path)

/-- Two lists of pieces without their longest common beginning. -/
def apart : List Piece → List Piece → List Piece × List Piece
  | a :: as, b :: bs => if a = b then apart as bs else (a :: as, b :: bs)
  | as, bs => (as, bs)

/-- The way from one absolute path to another. -/
def between (source target : String) : String :=
  let rest := apart (placeSegments source) (placeSegments target)
  String.ofList (joinPieces (rest.1.map (fun _ => up) ++ rest.2))

/-- Whether a way neither stays where it begins nor leaves it. -/
def isBelow (way : String) : Bool :=
  !way.isEmpty && way != ".." && !("../".toList.isPrefixOf way.toList) && !isAbsolute way

end Path

end ConfigSource
