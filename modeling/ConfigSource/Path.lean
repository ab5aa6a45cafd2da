/-!
# Paths

A path is a text in which `/` separates **pieces**. Its normal form keeps the pieces that say
something: empty pieces and `.` are dropped, and `..` takes the piece before it away. Where there is
none to take away, `..` is dropped at an absolute start and kept where a relative path climbs above
its start. A trailing separator is kept.

* `ConfigSource.Path.pieces`, `ConfigSource.Path.joinPieces`: cutting at separators and back;
* `ConfigSource.Path.resolvePieces`: the pieces of the normal form;
* `ConfigSource.Path.normalize`: the normal form of a path;
* `ConfigSource.Path.join`, `ConfigSource.Path.dirname`: putting two paths one after the other, and
  taking the last piece away;
* `ConfigSource.Path.relativeTo`: a name seen from the place of the source that mentions it.
-/

namespace ConfigSource

namespace Path

/-- What stands between two separators. -/
abbrev Piece := List Char

/-- The piece that stays where it is. -/
def here : Piece := ['.']

/-- The piece that takes the one before it away. -/
def up : Piece := ['.', '.']

/-- The pieces of a path: there is one more than there are separators. -/
def pieces : List Char → List Piece
  | [] => [[]]
  | c :: rest =>
    if c = '/' then [] :: pieces rest
    else
      match pieces rest with
      | [] => [[c]]
      | first :: others => (c :: first) :: others

/-- Pieces with separators between them. -/
def joinPieces : List Piece → List Char
  | [] => []
  | [p] => p
  | p :: q :: rest => p ++ '/' :: joinPieces (q :: rest)

/-- Takes one more piece into a normal form, of which the last piece stands first. With `climbs`, a
`..` that finds nothing to take away is kept. -/
def push (climbs : Bool) (stack : List Piece) (piece : Piece) : List Piece :=
  if piece = [] ∨ piece = here then stack
  else if piece = up then
    match stack with
    | [] => if climbs then [up] else []
    | top :: below => if top = up then up :: top :: below else below
  else piece :: stack

/-- The pieces of the normal form. -/
def resolvePieces (climbs : Bool) (ps : List Piece) : List Piece :=
  (ps.foldl (push climbs) []).reverse

/-- Whether the path begins at the root. -/
def isAbsolute (s : String) : Bool := s.toList.head? == some '/'

/-- Whether the path ends with a separator. -/
def endsWithSeparator (s : String) : Bool := s.toList.getLast? == some '/'

/-- The pieces of the normal form of a path; only a relative path can climb above its start. -/
def segments (s : String) : List Piece := resolvePieces (!isAbsolute s) (pieces s.toList)

/-- The text of a normal form. -/
def spell (absolute trailing : Bool) (segments : List Piece) : String :=
  match segments with
  | [] => if absolute then "/" else if trailing then "./" else "."
  | _ =>
    String.ofList ((if absolute then ['/'] else []) ++ joinPieces segments
      ++ if trailing then ['/'] else [])

/-- The normal form of a path. -/
def normalize (s : String) : String := spell (isAbsolute s) (endsWithSeparator s) (segments s)

/-- Two paths, one after the other, in normal form; an empty one is left out. -/
def join (first second : String) : String :=
  if first.isEmpty then normalize second
  else if second.isEmpty then normalize first
  else normalize (first ++ "/" ++ second)

/-- A path without its last piece, not brought to normal form. -/
def dirname (s : String) : String :=
  match s.toList with
  | [] => "."
  | first :: rest =>
    match (rest.reverse.dropWhile (· == '/')).dropWhile (· != '/') with
    | [] => if first = '/' then "/" else "."
    | _ :: before =>
      if first = '/' ∧ before = [] then "//" else String.ofList (first :: before.reverse)

/-- A name seen from the place of the source that mentions it: nothing if the source has no place,
or if the name is absolute already. -/
def relativeTo (location : Option String) (name : String) : Option String :=
  match location with
  | none => none
  | some place => if isAbsolute name then none else some (join (dirname place) name)

/-! ### Cutting -/

/-- Every path has a piece. -/
theorem pieces_ne_nil (cs : List Char) : pieces cs ≠ [] := by
  cases cs with
  | nil => simp [pieces]
  | cons c rest =>
    simp only [pieces]
    split
    · simp
    · split <;> simp

end Path

end ConfigSource
