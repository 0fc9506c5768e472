import Kestrel.Diagnosis.Excerpt
import Kestrel.Diagnosis.Hint

/-!
# Parse errors

What is reported about a text that is no program.

* `ParseError`, `ParseError.text` — the report as a record, and as a text;
* `Misreading` — what the reader of a text stumbled over;
* `Place`, `placeOf` — a position as offset, line and column;
* `ParseError.ofMisreading` — the report about a text.

The reader sees a text with its tabs expanded, so the place is one of the expanded text; the excerpt
and the characters found are taken from the text as it was written, at the same line and column.
-/

namespace Kestrel

open Diagnosis

/-- A report about a text that could not be read. -/
structure ParseError where
  /-- what is wrong, in a few words -/
  message : String
  /-- where, as a number of characters -/
  location : Int := 0
  /-- where, as a line; zero if no line is to blame -/
  line : Int := 0
  /-- where, as a column of that line -/
  column : Int := 0
  /-- what could stand there -/
  expected : List String := []
  /-- what stands there -/
  got : Option String := none
  /-- the lines around -/
  context : Option String := none
  /-- what may help -/
  suggestions : List String := []
  /-- the name of the text -/
  filename : String := "<input>"
  deriving DecidableEq, Repr

namespace ParseError

/-- Part of a report, left out where there is nothing to say. -/
def part (shown : Bool) (text : String) : String :=
  if shown then text else ""

/-- A text without the line feeds at its end. -/
def trimLineFeeds (s : String) : String :=
  String.ofList (s.toList.reverse.dropWhile (· = '\n')).reverse

/-- The report as a text. -/
def text (e : ParseError) : String :=
  if e.line = 0 then "Parse error: " ++ e.message
  else
    let got := e.got.getD ""
    let context := e.context.getD ""
    trimLineFeeds <|
      "Parse error at line " ++ toString e.line ++ ", column " ++ toString e.column ++ ":\n"
        ++ "  " ++ e.message ++ "\n"
        ++ part (!e.expected.isEmpty) ("  Expected: " ++ ", ".intercalate e.expected ++ "\n")
        ++ part (got ≠ "") ("  Got: " ++ got ++ "\n")
        ++ part (context ≠ "") ("  Context:\n" ++ context ++ "\n")
        ++ part (!e.suggestions.isEmpty) ("  Suggestions:\n"
            ++ String.join (e.suggestions.map fun s => "    - " ++ s ++ "\n"))

end ParseError

namespace Diagnosis

/-- What the reader of a text stumbled over. -/
inductive Misreading where
  /-- an operand is missing -/
  | missingOperand
  /-- an expression ends inside parentheses or inside a choice -/
  | unbalanced
  /-- the text goes on where it should end -/
  | leftover
  deriving DecidableEq, Repr

namespace Misreading

/-- The wording. -/
def message : Misreading → String
  | missingOperand => "Expected operand"
  | unbalanced => "Unbalanced parentheses or expression syntax error"
  | leftover => "Expected end of text"

/-- What could stand at the place. An operand is named in short. -/
def expected : Misreading → List String
  | missingOperand => ["operand"]
  | unbalanced => [anySyntax]
  | leftover => ["end of text"]

/-- What could stand at the place, for the choice of hints. It is the same as `expected`, but for the
short name of an operand: spelled out, an operand is the list of all its forms, and the signs in that list
are what hints go by. There the parentheses are the only ones that a hint asks for. -/
def wanted : Misreading → List String
  | missingOperand => ["operand", "'('", "')'"]
  | m => m.expected

end Misreading

/-- A position in a text. -/
structure Place where
  /-- how many characters are in front -/
  location : Nat
  /-- the line, counted from one -/
  line : Nat
  /-- the column, counted from one -/
  column : Nat
  deriving DecidableEq, Repr

/-- The position in the text `cs` after its first `n` characters. -/
def placeOf (cs : List Char) (n : Nat) : Place :=
  let before := cs.take n
  ⟨n, before.count '\n' + 1, (before.reverse.takeWhile (· ≠ '\n')).length + 1⟩

end Diagnosis

/-- How many lines an excerpt shows on either side of the fault. -/
def excerptRadius : Nat := 2

/-- The report about a text that was written as `source` and misread at the given place. -/
def ParseError.ofMisreading (source : List Char) (filename : String) (m : Misreading) (place : Place) :
    ParseError :=
  let line := ((Text.lines source)[place.line - 1]?).getD []
  let got := found source place.line place.column
  { message := m.message
    location := place.location
    line := place.line
    column := place.column
    expected := m.expected
    got := some got
    context := some (String.ofList (excerpt source place.line place.column excerptRadius))
    suggestions := (hints got.toList m.wanted line).map Hint.text
    filename := filename }

end Kestrel
