import Kestrel.Scope.Store
import Kestrel.Text.Blank
import Kestrel.Value.Operations

/-!
# Formulas in placeholders

The inside of a placeholder is a formula of its own small language: numerals, names, and the four
arithmetic operators, without precedence and without parentheses. White space does not count. The
last operator is applied last, so a formula is read from the left like a sum with running total.

* `Formula` — a formula, and `Formula.toNode`, the same as a syntax tree;
* `Formula.read` — a formula from its characters. Names must be bound when it is read, so a failure
  comes from the leftmost operand that is no numeral of admissible length and no bound name;
* `Formula.eval` — the value of a formula.
-/

namespace Kestrel.Template

open Text

/-- A formula. -/
inductive Formula where
  /-- a numeral -/
  | int (value : Nat)
  /-- a name -/
  | var (name : String)
  /-- two formulas and the operator between them -/
  | binary (op : BinaryOp) (left right : Formula)
  deriving DecidableEq, Repr

namespace Formula

/-- A formula as a syntax tree. -/
def toNode : Formula → Node
  | int value => .int value
  | var name => .var name
  | binary op left right => .binary op left.toNode right.toNode

/-- The operator that a character stands for in a formula. -/
def operator? : Char → Option BinaryOp
  | '+' => some .add
  | '-' => some .sub
  | '*' => some .mul
  | '/' => some .div
  | _ => none

/-- The last operator, with what stands before it and after it. -/
def lastOperator? : List Char → Option (List Char × BinaryOp × List Char)
  | [] => none
  | c :: cs =>
    match lastOperator? cs with
    | some (before, op, after) => some (c :: before, op, after)
    | none => (operator? c).map fun op => ([], op, cs)

theorem length_lt_of_lastOperator? {cs before after : List Char} {op : BinaryOp}
    (h : lastOperator? cs = some (before, op, after)) : before.length < cs.length := by
  induction cs generalizing before with
  | nil => simp [lastOperator?] at h
  | cons c cs ih =>
    simp only [lastOperator?] at h
    split at h
    · rename_i b o a hl
      simp only [Option.some.injEq, Prod.mk.injEq] at h
      obtain ⟨rfl, rfl, rfl⟩ := h
      have := ih hl
      simp only [List.length_cons]
      omega
    · simp only [Option.map_eq_some_iff, Prod.mk.injEq] at h
      obtain ⟨_, _, rfl, _⟩ := h
      simp

/-- Is the character one of the ten ASCII digits? -/
def isDigit (c : Char) : Bool := '0' ≤ c && c ≤ '9'

/-- An operand: a numeral if it consists of digits, else a name, which must be bound. -/
def readOperand (bound : String → Bool) (cs : List Char) : Except Failure Formula :=
  if cs ≠ [] ∧ cs.all isDigit then
    match ofDigits? (cs.map fun c => c.toNat - '0'.toNat) with
    | some n => .ok (int n)
    | none => .error (.fault .tooManyDigits)
  else if bound (String.ofList cs) then .ok (var (String.ofList cs))
  else .error (.runtime (.undefinedVariable (String.ofList cs)))

/-- A formula from characters none of which is blank. -/
def readDense (bound : String → Bool) (cs : List Char) : Except Failure Formula :=
  match _h : lastOperator? cs with
  | some (before, op, after) =>
    match readDense bound before with
    | .error e => .error e
    | .ok left => (readOperand bound after).map (binary op left)
  | none => readOperand bound cs
termination_by cs.length
decreasing_by exact length_lt_of_lastOperator? _h

/-- A formula from the inside of a placeholder. -/
def read (bound : String → Bool) (cs : List Char) : Except Failure Formula :=
  readDense bound (removeBlanks cs)

/-- The value of a formula in a scope. -/
def eval (s : Store) (scope : ScopeId) : Formula → Except Failure Value
  | int value => .ok (.int value)
  | var name =>
    match s.lookup? scope name with
    | some v => .ok v
    | none => .error (.runtime (.undefinedVariable name))
  | binary op left right =>
    match eval s scope left with
    | .error e => .error e
    | .ok x =>
      match eval s scope right with
      | .error e => .error e
      | .ok y => op.apply x y

end Formula

/-- The text that takes the place of a placeholder, if nothing fails. -/
def placeholderText (s : Store) (scope : ScopeId) (inner : List Char) : Except Failure String :=
  match Formula.read (s.contains scope) inner with
  | .error e => .error e
  | .ok formula =>
    match formula.eval s scope with
    | .error e => .error e
    | .ok v => v.textOf

end Kestrel.Template
