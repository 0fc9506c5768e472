import Kestrel.Files.Basic
import Kestrel.Text.Pieces

/-!
# A tree of files

Files held in memory, as a finite list of paths with their contents. Directories are those that lie
on the way to a file. A path is followed part by part from the working directory: every part but the
last must lead to a directory, and a slash at the end asks for one.

* `FileTree` — the contents by path, each path as its list of names;
* `FileTree.find` — where a path leads;
* `FileTree.answer` — the answers that the tree gives as `Files`.
-/

namespace Kestrel

open Text

/-- Files by path from the working directory. -/
structure FileTree where
  /-- the names on the way to a file, and its bytes -/
  entries : List (List String × List UInt8)

namespace FileTree

/-- What stands at a place of the tree. -/
inductive Place where
  /-- a file -/
  | file (content : List UInt8)
  /-- a directory, with the names that lead to it from the working directory -/
  | directory (names : List String)
  /-- a directory above the working directory, by this many levels -/
  | above (levels : Nat)
  deriving DecidableEq, Repr

/-- The parts of a path between its slashes. -/
def parts (path : String) : List String :=
  (pieces ['/'] path.toList).map String.ofList

/-- The longest name, in bytes. -/
def nameLimit : Nat := 255

/-- A path has fewer bytes than this. -/
def pathLimit : Nat := 4096

/-- Goes from a place to the part `name` of a path. Empty parts and single dots stay where they are,
two dots go up. -/
def enter (tree : FileTree) (place : Place) (name : String) : Except OpenFault Place :=
  match place with
  | .file _ => .error .notDirectory
  | .above levels =>
    if name = "" ∨ name = "." then .ok place
    else if name = ".." then .ok (.above (levels + 1))
    else .error .missing
  | .directory names =>
    if name = "" ∨ name = "." then .ok place
    else if name = ".." then
      if names.isEmpty then .ok (.above 1) else .ok (.directory names.dropLast)
    else if nameLimit < name.utf8ByteSize then .error .nameTooLong
    else
      match tree.entries.lookup (names ++ [name]) with
      | some content => .ok (.file content)
      | none =>
        if tree.entries.any fun entry => (names ++ [name]).isPrefixOf entry.1 then
          .ok (.directory (names ++ [name]))
        else .error .missing

/-- Where a path leads from the working directory. -/
def find (tree : FileTree) (path : String) : Except OpenFault Place :=
  if path = "" then .error .missing
  else if pathLimit ≤ path.utf8ByteSize then .error .nameTooLong
  else if path.startsWith "/" then .error .missing
  else (parts path).foldlM tree.enter (.directory [])

/-- The answers of the tree. -/
def answer (tree : FileTree) : Files := fun path =>
  match tree.find path with
  | .ok (.file content) => .bytes content
  | .ok _ => .refused .isDirectory
  | .error fault => .refused fault

/-- A part of a path that leads somewhere else. -/
def isStep (part : String) : Bool := part ≠ "" && part ≠ "."

/-- A tree from paths and contents; of two contents for one path the later one counts. -/
def ofList (entries : List (String × List UInt8)) : FileTree :=
  ⟨(entries.map fun (path, content) => ((parts path).filter isStep, content)).reverse⟩

end FileTree

end Kestrel
