/-!
# Lines

A text is cut into lines at line feeds only; n line feeds make n + 1 lines. Files may end their lines
in other ways, which are brought to line feeds when a file is read.

* `lines` — the lines of a text;
* `unifyLineEnds` — a carriage return, alone or with the line feed after it, becomes a line feed.
-/

namespace Kestrel.Text

/-- The lines of a text, without the line feeds between them. -/
def lines : List Char → List (List Char)
  | [] => [[]]
  | c :: cs =>
    if c = '\n' then [] :: lines cs
    else
      match lines cs with
      | [] => [[c]]
      | line :: rest => (c :: line) :: rest

/-- Lines joined by line feeds. -/
def joinLines (ls : List (List Char)) : List Char :=
  ['\n'].intercalate ls

/-- There is at least one line. -/
theorem lines_ne_nil (cs : List Char) : lines cs ≠ [] := by
  cases cs with
  | nil => simp [lines]
  | cons c cs =>
    simp only [lines]
    split
    · simp
    · split <;> simp

/-- Every way to end a line becomes a line feed. -/
def unifyLineEnds : List Char → List Char
  | [] => []
  | '\r' :: '\n' :: cs => '\n' :: unifyLineEnds cs
  | '\r' :: cs => '\n' :: unifyLineEnds cs
  | c :: cs => c :: unifyLineEnds cs

end Kestrel.Text
