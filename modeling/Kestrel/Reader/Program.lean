import Kestrel.Diagnosis.ParseError
import Kestrel.Failure
import Kestrel.Reader.Statement
import Kestrel.Text.Tabs

/-!
# Programs

A program is a row of statements up to the end of the text. A statement that cannot be read ends the
row, so what is reported is always that the text goes on where it should end; only a text that has to
be a single expression is judged by the expression itself.

* `Rejection` — why a text is refused: it is misread, or the reading was halted;
* `readStatements`, `readExpression` — the reading of a text whose tabs have been expanded;
* `Problem` — why a text was not read or not evaluated, as its user is told;
* `parseProgram`, `parseExpression` — the reading of a text as it was written.
-/

namespace Kestrel

open Reader Diagnosis

namespace Reader

/-- Why a text is refused. -/
inductive Rejection where
  /-- it was misread, with so much of the text left -/
  | misread (what : Misreading) (rest : List Char)
  /-- the reading was halted -/
  | halted (reason : Halt)
  deriving DecidableEq, Repr

/-- A bound on nesting and repetition that no text of this length reaches. -/
def readingBound (cs : List Char) : Nat := cs.length + 2

/-- The text ends at the position, blanks and comments left aside. -/
def atEnd {α : Type} (a : α) (c : Cursor) : Except Rejection α :=
  if c.skip.rest.isEmpty then .ok a else .error (.misread .leftover c.skip.rest)

/-- The statements of a text. -/
def readStatements (cs : List Char) : Except Rejection (List Node) :=
  match Rule.many (statementAt (readingBound cs)) (readingBound cs) (Cursor.start cs) with
  | .ok statements c => atEnd statements c
  | .no => .error (.misread .leftover (Cursor.start cs).skip.rest)
  | .halt h => .error (.halted h)

/-- What the reader stumbled over when the machine for expressions stood still. -/
def Chain.Problem.misreading : Chain.Problem → Misreading
  | .missingOperand => .missingOperand
  | .unbalanced => .unbalanced

/-- The single expression of a text. -/
def readExpression (cs : List Char) : Except Rejection Node :=
  match chainAt (readingBound cs) (Cursor.start cs) with
  | .done e c => atEnd e c
  | .failed problem rest => .error (.misread problem.misreading rest)
  | .halt h => .error (.halted h)
  | .more _ => .error (.halted .exhausted)

end Reader

/-- Why a text was not read, or a program not evaluated. -/
inductive Problem where
  /-- the text is no program -/
  | parse (error : ParseError)
  /-- the program failed, or its host did -/
  | failure (failure : Failure)
  deriving DecidableEq, Repr

namespace Problem

/-- A rejected text, as its user is told. -/
def ofRejection (source expanded : List Char) (filename : String) : Rejection → Problem
  | .misread m rest =>
    .parse (.ofMisreading source filename m (placeOf expanded (expanded.length - rest.length)))
  | .halted .tooManyDigits => .failure (.fault .tooManyDigits)
  | .halted .exhausted => .failure (.fault .readingBound)

end Problem

/-- Reads a text, as it was written, by a reader of texts without tabs. -/
def parseWith {α : Type} (read : List Char → Except Rejection α) (source filename : String) :
    Except Problem α :=
  let cs := source.toList
  let expanded := Text.expandTabs cs
  match read expanded with
  | .ok a => .ok a
  | .error r => .error (.ofRejection cs expanded filename r)

/-- The statements of a program. -/
def parseProgram (source filename : String) : Except Problem (List Node) :=
  parseWith readStatements source filename

/-- The single expression that a text is. -/
def parseExpression (source filename : String) : Except Problem Node :=
  parseWith readExpression source filename

end Kestrel
