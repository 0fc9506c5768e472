/-!
# Operators

The operators of the language with their symbols and their binding levels. A higher level binds
tighter; operators of one level associate to the left.

* `BinaryOp`, `UnaryOp` — the operators;
* `BinaryOp.ofSymbol?` — the operator of a symbol, with `ofSymbol?_symbol` as its law.
-/

namespace Kestrel

/-- The operators between two operands. -/
inductive BinaryOp where
  /-- `+`: the sum, or the joined texts if either side is a text -/
  | add
  /-- `-` -/
  | sub
  /-- `*`: the product, or a repeated text -/
  | mul
  /-- `/`: the quotient rounded toward zero -/
  | div
  /-- `++`: the joined texts of any two values -/
  | concat
  /-- `>` -/
  | greater
  /-- `<` -/
  | less
  /-- `==` -/
  | equal
  /-- `>=` -/
  | atLeast
  /-- `&&`: both sides are always evaluated -/
  | and
  /-- `||`: both sides are always evaluated -/
  | or
  deriving DecidableEq, Repr

/-- The operators in front of one operand. -/
inductive UnaryOp where
  /-- `-` -/
  | neg
  /-- `!` -/
  | not
  deriving DecidableEq, Repr

namespace BinaryOp

/-- How the operator is written. -/
def symbol : BinaryOp → String
  | add => "+"
  | sub => "-"
  | mul => "*"
  | div => "/"
  | concat => "++"
  | greater => ">"
  | less => "<"
  | equal => "=="
  | atLeast => ">="
  | and => "&&"
  | or => "||"

/-- All binary operators. -/
def all : List BinaryOp :=
  [add, sub, mul, div, concat, greater, less, equal, atLeast, and, or]

theorem mem_all (op : BinaryOp) : op ∈ all := by
  cases op <;> decide

/-- The operator that is written as `s`. -/
def ofSymbol? (s : String) : Option BinaryOp :=
  all.find? (·.symbol = s)

/-- A symbol belongs to one operator only. -/
theorem ofSymbol?_symbol (op : BinaryOp) : ofSymbol? op.symbol = some op := by
  cases op <;> decide

/-- The binding level: `*` and `/` tightest, then `+` and `-`, `++`, the comparisons, `&&` and `||`. -/
def level : BinaryOp → Nat
  | mul | div => 7
  | add | sub => 6
  | concat => 5
  | greater | less | equal | atLeast => 4
  | and => 3
  | or => 2

end BinaryOp

/-- The binding level of the operators in front of an operand, above all binary ones. -/
def UnaryOp.level : Nat := 8

/-- The binding level of the choice `c ? t : f`, below all binary operators. -/
def choiceLevel : Nat := 1

end Kestrel
