import ConfigSource.FileTree

/-!
# Walks in a file tree

A path is **walked** piece by piece from the root, the links on the way being followed. The
**trail** of a walk is the directory that it has come to and those that it came through, so that
`..` leads back into the last of them. A walk ends at a file or a directory, or where nothing
stands, or it is refused.

What a path is walked for makes a difference where a separator follows its last piece. Such a path
can only mean a directory, so a walk to a file that is to be made is refused there, without a look
at what stands behind that piece.

* `ConfigSource.Trail`: where a walk has come to, and how;
* `ConfigSource.FileTree.stretch`, `ConfigSource.FileTree.walk`: where a path leads, as far as the
  first link and over several;
* `ConfigSource.FileTree.stat`: what a file test says of a path;
* `ConfigSource.FileTree.spot`: the place of the last piece of a path, which is not followed.

A walk follows at most `ConfigSource.FileTree.maxLinks` links; between two links every step consumes
a piece.
-/

namespace ConfigSource

/-- What a file test says of a path. -/
inductive Stat where
  /-- A regular file is found. -/
  | file
  /-- Something else is found. -/
  | other
  /-- Nothing is found. -/
  | missing
  /-- The test is refused. -/
  | failed (e : SystemError)
deriving DecidableEq

/-- What a path is walked for. -/
inductive Purpose where
  /-- To see what is there. -/
  | look
  /-- To write a file, which is made if nothing is there. -/
  | create
deriving DecidableEq

/-- Where a walk ends. -/
inductive Walk where
  /-- At a regular file. -/
  | file (place : Place)
  /-- At a directory. -/
  | directory (place : Place)
  /-- In a directory that has nothing of this name, with these pieces left. -/
  | absent (parent : Place) (name : String) (left : List Path.Piece)
  /-- At a file that is not the end of the path. -/
  | blocked
  /-- The walk is refused. -/
  | refused (e : SystemError)

/-- The directory where a walk ends, or why it ends at none. -/
def Walk.directory? : Walk → Except SystemError Place
  | .directory place => .ok place
  | .file _ => .error .notDirectory
  | .absent _ _ _ => .error .missing
  | .blocked => .error .notDirectory
  | .refused e => .error e

/-! ### Trails -/

/-- The directory that a walk has come to, and how it came there. -/
structure Trail where
  /-- What the directory holds. -/
  held : Table Entry
  /-- The names that led there, the last first, each with what the directory above it holds. -/
  through : List (String × Table Entry)

namespace Trail

/-- The place of the directory. -/
def place (t : Trail) : Place := (t.through.map Prod.fst).reverse

/-- The trail one directory further down. -/
def down (t : Trail) (name : String) (held : Table Entry) : Trail :=
  ⟨held, (name, t.held) :: t.through⟩

/-- The trail one directory back; nothing is above the root. -/
def up (t : Trail) : Trail :=
  match t.through with
  | [] => t
  | (_, held) :: through => ⟨held, through⟩

end Trail

namespace FileTree

/-- The number of bytes of a text. -/
def byteLength (cs : List Char) : Nat := cs.foldl (fun n c => n + c.utf8Size) 0

/-- The greatest number of bytes of a piece. -/
def maxPieceBytes : Nat := 255

/-- The greatest number of bytes of a path. -/
def maxPathBytes : Nat := 4095

/-- The greatest number of links on a walk. -/
def maxLinks : Nat := 40

/-- Whether pieces that are left are separators only. -/
def onlySeparators (left : List Path.Piece) : Bool := !left.isEmpty && left.all List.isEmpty

/-- The trail that has come no further than the root. -/
def root (t : FileTree) : Trail := ⟨t.held, []⟩

/-- Where pieces lead from a directory, as far as the first link; from there `onLink` goes on, with
the directory that the target is seen from and the pieces that are left then. -/
def stretch (t : FileTree) (purpose : Purpose) (onLink : Trail → List Path.Piece → Walk) :
    Trail → List Path.Piece → Walk
  | trail, [] => .directory trail.place
  | trail, piece :: rest =>
    if piece = [] ∨ piece = Path.here then t.stretch purpose onLink trail rest
    else if piece = Path.up then t.stretch purpose onLink trail.up rest
    else if purpose = .create ∧ onlySeparators rest then .refused .isDirectory
    else if maxPieceBytes < byteLength piece then .refused .nameTooLong
    else
      let name := String.ofList piece
      match trail.held.get? name with
      | none => .absent trail.place name rest
      | some (.directory held) => t.stretch purpose onLink (trail.down name held) rest
      | some .file => if rest = [] then .file (trail.place ++ [name]) else .blocked
      | some (.link target) =>
        onLink (if Path.isAbsolute target then t.root else trail)
          (Path.pieces target.toList ++ rest)

/-- Where pieces lead from a directory, over at most `links` links. -/
def walk (t : FileTree) (purpose : Purpose) : Nat → Trail → List Path.Piece → Walk
  | 0 => t.stretch purpose fun _ _ => .refused .tooManyLinks
  | links + 1 => t.stretch purpose (t.walk purpose links)

/-- Why a path is refused whatever stands in the tree. -/
def misspelled? (path : String) : Option SystemError :=
  if path.toList.contains (Char.ofNat 0) then some .zeroInPath
  else if maxPathBytes < path.utf8ByteSize then some .nameTooLong
  else none

/-- Where an absolute path leads. -/
def follow (t : FileTree) (purpose : Purpose) (path : String) : Walk :=
  match misspelled? path with
  | some e => .refused e
  | none => t.walk purpose maxLinks t.root (Path.pieces path.toList)

/-- What a file test says of an absolute path; links are followed. -/
def stat (t : FileTree) (path : String) : Stat :=
  match t.follow .look path with
  | .file _ => .file
  | .directory _ => .other
  | .absent _ _ _ => .missing
  | .blocked => .missing
  | .refused e => .failed e

/-- The place of the last piece of an absolute path; links before it are followed, and separators
behind it count for nothing. -/
def spot (t : FileTree) (path : String) : Except SystemError Place :=
  match misspelled? path with
  | some e => .error e
  | none =>
    match (Path.pieces path.toList).reverse.dropWhile (· == []) with
    | [] => .ok []
    | name :: before =>
      match (t.walk .look maxLinks t.root before.reverse).directory? with
      | .ok parent =>
        if name = Path.here then .ok parent
        else if name = Path.up then .ok parent.dropLast
        else if maxPieceBytes < byteLength name then .error .nameTooLong
        else .ok (parent ++ [String.ofList name])
      | .error e => .error e

end FileTree

end ConfigSource
