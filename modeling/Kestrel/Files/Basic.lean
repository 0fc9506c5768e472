import Kestrel.Failure

/-!
# Files

A program sees files only through what the host answers for their paths, and the answers do not
change while it runs. The host may supply an answer late: it is told which path it still owes.

* `Files` — the answers;
* `Files.readText` — the text of a file, with every line end brought to a line feed.
-/

namespace Kestrel

/-- What the host says about a path. -/
inductive FileAnswer where
  /-- the bytes of the file -/
  | bytes (content : List UInt8)
  /-- there is no file to open -/
  | refused (fault : OpenFault)
  /-- the host has not been asked yet -/
  | notYet
  deriving DecidableEq, Repr

/-- The files of the host: an answer for every path. -/
abbrev Files := String → FileAnswer

namespace Files

/-- No file anywhere. -/
def empty : Files := fun _ => .refused .missing

/-- The text of the file at `path`: its bytes as strict UTF-8 with unified line ends. The outer failure
is the host's, the inner one says why there is no such text. -/
def readText (files : Files) (path : String) : Except Fault (Except ReadFault String) :=
  if path.toList.contains '\x00' then .error .nulInPath
  else
    match files path with
    | .notYet => .error (.notSupplied path)
    | .refused fault => .ok (.error (.unopened fault))
    | .bytes content =>
      match Text.Utf8.decode content with
      | .error malformed => .ok (.error (.undecodable malformed))
      | .ok cs => .ok (.ok (String.ofList (Text.unifyLineEnds cs)))

end Files

end Kestrel
