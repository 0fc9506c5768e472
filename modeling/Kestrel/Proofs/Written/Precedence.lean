import Kestrel.Syntax.Operator

/-!
# Precedence

Which operators bind tighter than which, as a table (`precedence`). The place of an operator in the
table gives its tier, and the levels that the reader works with are these tiers (`tier_eq_level`).
-/

namespace Kestrel.Written

/-- The operators between operands, those that bind loosest first. The operators of one row bind alike,
and the left one of two is applied first. -/
def precedence : List (List BinaryOp) :=
  [[.or], [.and], [.greater, .less, .equal, .atLeast], [.concat], [.add, .sub], [.mul, .div]]

/-- The tier of choices, below all operators between operands. -/
def choiceTier : Nat := 1

/-- The tier of an operator between operands. -/
def tier (op : BinaryOp) : Nat :=
  precedence.findIdx (·.contains op) + (choiceTier + 1)

/-- The tier of operators in front of an operand, above all operators between operands. -/
def unaryTier : Nat := precedence.length + (choiceTier + 1)

theorem tier_eq_level (op : BinaryOp) : tier op = op.level := by
  cases op <;> rfl

/-- An operator between operands is never the loosest one. -/
theorem choiceLevel_lt_level (op : BinaryOp) : choiceLevel < op.level := by
  cases op <;> decide

end Kestrel.Written
