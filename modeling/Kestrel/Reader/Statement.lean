import Kestrel.Reader.Expression

/-!
# Statements

A statement is a function, a loop, a condition, a block, an assignment or an expression, tried in
this order. The semicolon after the last two may be missing, so statements may follow each other
without any sign. What does not read as an assignment is tried as an expression from its start.

* `declaration`, `loop`, `conditional`, `block`, `assignment` — the kinds of statement, given how to
  read the statements inside them;
* `statementAt` — statements nested less than so deep.
-/

namespace Kestrel.Reader

/-- Statements between braces. -/
def block (statement : Rule Node) (bound : Nat) : Rule Node := do
  symbol "\x7b"
  let statements ← Rule.many statement bound
  symbol "\x7d"
  pure (.block statements)

/-- A function with its parameters and its body. -/
def declaration (block : Rule Node) (bound : Nat) : Rule Node := do
  keyword .function
  let name ← identifier
  symbol "("
  let params ← commaList identifier bound
  symbol ")"
  let body ← block
  pure (.declare name params body)

/-- A loop over a range of integers. -/
def loop (expression block : Rule Node) : Rule Node := do
  keyword .for
  symbol "("
  let name ← identifier
  keyword .in
  let first ← expression
  symbol ".."
  let last ← expression
  symbol ")"
  let body ← block
  pure (.forLoop name first last body)

/-- The node of a condition. Without an else-branch that branch is empty, and one that is itself a
condition becomes the only statement of a block. -/
def ifNode (condition yes : Node) : Option Node → Node
  | none => .ifElse condition yes (.block [])
  | some (.block statements) => .ifElse condition yes (.block statements)
  | some other => .ifElse condition yes (.block [other])

/-- A condition with its branches; at most `bound` conditions follow each other by `else`. An `else`
that no branch follows is left. -/
def conditional (expression block : Rule Node) : (bound : Nat) → Rule Node
  | 0 => Rule.stop .exhausted
  | bound + 1 => do
    keyword .if
    symbol "("
    let condition ← expression
    symbol ")"
    let yes ← block
    let other ← Rule.optional do
      keyword .else
      Rule.orElse (conditional expression block bound) block
    pure (ifNode condition yes other)

/-- An assignment. -/
def assignment (expression : Rule Node) : Rule Node := do
  let _ ← Rule.optional (keyword .let)
  let name ← identifier
  assignSign
  let e ← expression
  pure (.assign name e)

/-- A semicolon, if there is one. -/
def semicolon : Rule Unit := do
  let _ ← Rule.optional (symbol ";")
  pure ()

/-- An assignment or an expression, with the semicolon after it. -/
def simple (expression : Rule Node) : Rule Node := do
  let e ← Rule.orElse (assignment expression) expression
  semicolon
  pure e

/-- The kinds of statement in the order in which they are tried. -/
def statementForms (expression block : Rule Node) (bound : Nat) : List (Rule Node) := [
  declaration block bound,
  loop expression block,
  conditional expression block bound,
  block,
  simple expression]

/-- A statement, given how to read expressions and blocks. -/
def statementOf (expression block : Rule Node) (bound : Nat) : Rule Node :=
  Rule.oneOf (statementForms expression block bound)

/-- A statement in which blocks are nested less than `bound` deep. -/
def statementAt : (bound : Nat) → Rule Node
  | 0 => Rule.stop .exhausted
  | bound + 1 =>
    statementOf (expressionAt (bound + 1)) (block (statementAt bound) (bound + 1)) (bound + 1)

end Kestrel.Reader
