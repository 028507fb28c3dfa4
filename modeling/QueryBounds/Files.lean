import QueryBounds.Failure.Cause

/-!
# Files

Files are looked up by a path below a directory. Every part of a path but the last has to be a
directory. A text file is read as UTF-8, and each of its line ends becomes a line feed.
-/
namespace QueryBounds

inductive FileEntry where
  | file (bytes : ByteArray)
  | directory

/-- Where paths lead: to the bytes of a file, or into trouble. -/
abbrev Files := String → Except PathTrouble ByteArray

namespace Files

/-- The names of a path with the separators between them. -/
def parts (path : String) : List String :=
  (split path.toList).map String.ofList
where
  split : List Char → List (List Char)
    | [] => [[]]
    | c :: cs =>
      if c = '/' then [] :: split cs
      else match split cs with
        | first :: more => (c :: first) :: more
        | [] => [[c]]

/-- What stands under a list of names, the outermost first. A directory may be known only by what
is in it. -/
def entryAt (entries : List (String × FileEntry)) (names : List String) : Option FileEntry :=
  if names.isEmpty then some .directory
  else
    match entries.find? fun e => parts e.1 == names with
    | some (_, entry) => some entry
    | none =>
      if entries.any fun e => names.isPrefixOf (parts e.1) then some .directory else none

/-- Follows the parts of a path from a directory on; `none` stands for a place outside. -/
def follow (entries : List (String × FileEntry)) :
    Option (List String) → List String → Except PathTrouble ByteArray
  | none, [] => .error .isDirectory
  | some at_, [] =>
    match entryAt entries at_ with
    | none => .error .missing
    | some .directory => .error .isDirectory
    | some (.file bytes) => .ok bytes
  | none, part :: more =>
    if part = "" ∨ part = "." ∨ part = ".." then follow entries none more else .error .missing
  | some at_, part :: more =>
    match entryAt entries at_ with
    | none => .error .missing
    | some (.file _) => .error .notDirectory
    | some .directory =>
      if part = "" ∨ part = "." then follow entries (some at_) more
      else if part = ".." then
        follow entries (if at_.isEmpty then none else some at_.dropLast) more
      else follow entries (some (at_ ++ [part])) more

/-- The files below a directory that has the given entries. -/
def ofEntries (entries : List (String × FileEntry)) : Files := fun path =>
  if path.isEmpty then .error .missing
  else match parts path with
    | "" :: more => follow entries none more
    | all => follow entries (some []) all

/-- A path without empty parts and without parts that stay where they are. -/
def normalPath (path : String) : String :=
  let kept := (parts path).filter fun part => part != "" && part != "."
  let start := if path.startsWith "/" then "/" else ""
  if kept.isEmpty && start.isEmpty then "." else start ++ "/".intercalate kept

/-- A text with every line end turned into a line feed. -/
def unifyLineEnds : List Char → List Char
  | [] => []
  | '\r' :: '\n' :: cs => '\n' :: unifyLineEnds cs
  | '\r' :: cs => '\n' :: unifyLineEnds cs
  | c :: cs => c :: unifyLineEnds cs

/-- Whether a text can be a path at all; a null character ends a path where it stands. -/
def isPath (text : String) : Bool := !text.toList.contains '\x00'

/-- The text of a file. -/
def read (files : Files) (path : String) : Except Failure String :=
  if !isPath path then .error .unusablePath
  else
    match files (normalPath path) with
    | .error trouble => .error (.load (.notRead path trouble))
    | .ok bytes =>
      match String.fromUTF8? bytes with
      | none => .error .undecodable
      | some text => .ok (String.ofList (unifyLineEnds text.toList))

end Files
end QueryBounds
