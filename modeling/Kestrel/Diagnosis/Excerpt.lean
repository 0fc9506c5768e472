import Kestrel.Text.Blank
import Kestrel.Text.Lines

/-!
# Excerpts

Where a text is at fault, its reader is shown the lines around the fault, with a mark under the column,
and the characters that stand there. Lines and columns are counted from one. They come from elsewhere,
so they need not lie inside the text.

* `excerpt` — the numbered lines around a line, with the mark;
* `found` — the characters at a place, or what the text has instead.
-/

namespace Kestrel.Diagnosis

open Text

/-- A number, right-justified to at least four places. -/
def lineNumber (n : Nat) : List Char :=
  let digits := (Nat.repr n).toList
  List.replicate (4 - digits.length) ' ' ++ digits

/-- A line with its number in front. -/
def numberedLine (n : Nat) (line : List Char) : List Char :=
  lineNumber n ++ ':' :: ' ' :: line

/-- The line with a mark under a column of the line above it. -/
def marker (column : Int) : List Char :=
  List.replicate (6 + (column - 1).toNat) ' ' ++ "^ Error here".toList

/-- The lines of the excerpt that show the given lines, the first of which has the number `n`. -/
def excerptFrom (line column : Int) : (n : Nat) → List (List Char) → List (List Char)
  | _, [] => []
  | n, l :: ls =>
    numberedLine n l ::
      if (n : Int) = line then marker column :: excerptFrom line column (n + 1) ls
      else excerptFrom line column (n + 1) ls

/-- The lines of a text from `around` lines before the given one to as many after it, each with its
number, and the mark below the line itself. -/
def excerptLines (cs : List Char) (line column around : Int) : List (List Char) :=
  let first := (line - around - 1).toNat
  let last := (line + around).toNat
  excerptFrom line column (first + 1) (((lines cs).take last).drop first)

/-- The excerpt as one text. -/
def excerpt (cs : List Char) (line column : Int) (around : Int) : List Char :=
  joinLines (excerptLines cs line column around)

/-- The end of a stretch of a list: a negative one is counted from the end of the list. -/
def stretchEnd (length : Nat) (stop : Int) : Nat :=
  if stop < 0 then (length + stop).toNat else stop.toNat

/-- The characters at a place: at most eleven from the column on, without the blanks around them and
between single quotes. Where only blanks are left the line has ended, and where there is no such line
the text has. -/
def found (cs : List Char) (line column : Int) : String :=
  if 0 < line then
    match (lines cs)[(line - 1).toNat]? with
    | none => "end of input"
    | some l =>
      if column ≤ l.length then
        let stop := stretchEnd l.length (min l.length (column + 10))
        match trim ((l.take stop).drop (column - 1).toNat) with
        | [] => "end of line"
        | shown => "'" ++ String.ofList shown ++ "'"
      else "end of line"
  else "end of input"

end Kestrel.Diagnosis
