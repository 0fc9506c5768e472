/-!
# Keywords

The twelve words that are no names.

* `Keyword`, `Keyword.text` — the words and their spelling;
* `Keyword.all` — every one, in the order in which they are listed to a user.
-/

namespace Kestrel

/-- A reserved word. -/
inductive Keyword where
  | let
  | function
  | for
  | in
  | if
  | else
  | print
  | readFile
  | split
  | true
  | false
  | none
  deriving DecidableEq, Repr

namespace Keyword

/-- The spelling of a keyword. -/
def text : Keyword → String
  | .let => "let"
  | .function => "function"
  | .for => "for"
  | .in => "in"
  | .if => "if"
  | .else => "else"
  | .print => "print"
  | .readFile => "readFile"
  | .split => "split"
  | .true => "true"
  | .false => "false"
  | .none => "None"

/-- All keywords. -/
def all : List Keyword :=
  [.let, .function, .for, .in, .if, .else, .print, .readFile, .split, .true, .false, .none]

theorem mem_all (k : Keyword) : k ∈ all := by
  cases k <;> decide

end Keyword

end Kestrel
