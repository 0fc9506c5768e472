import Kestrel.Syntax.Operator

/-!
# Syntax trees

A program is a tree of nodes. Statements and expressions are not told apart: every node has a value.

* `Node` — the trees;
* `Node.label` — the kind of a node, as it is named to a user;
* `Node.children` — the nodes directly below, in order, with `sizeOf_lt_of_mem_children` for
  recursion along them.
-/

namespace Kestrel

/-- A syntax tree. -/
inductive Node where
  /-- an integer -/
  | int (value : Int)
  /-- a text without placeholders -/
  | str (text : String)
  /-- `true` or `false` -/
  | bool (value : Bool)
  /-- `None` -/
  | none
  /-- a text in which each placeholder is replaced by a value -/
  | template (text : String)
  /-- the value of a name -/
  | var (name : String)
  /-- `name = value` -/
  | assign (name : String) (value : Node)
  /-- two operands and the operator between them -/
  | binary (op : BinaryOp) (left right : Node)
  /-- an operator in front of its operand -/
  | unary (op : UnaryOp) (operand : Node)
  /-- `condition ? yes : no` -/
  | choice (condition yes no : Node)
  /-- `if (condition) yes else no` -/
  | ifElse (condition yes no : Node)
  /-- `for (name in first..last) body` -/
  | forLoop (name : String) (first last body : Node)
  /-- statements, one after the other -/
  | block (statements : List Node)
  /-- `function name(params) body` -/
  | declare (name : String) (params : List String) (body : Node)
  /-- `name(args)` -/
  | call (name : String) (args : List Node)
  /-- `print(operand)` -/
  | print (operand : Node)
  /-- `readFile(path)` -/
  | read (path : Node)
  /-- `split(text, delimiter)` -/
  | split (text delimiter : Node)
  deriving Repr, Inhabited

namespace Node

/-- The name of a node's kind. -/
def label : Node → String
  | int _ => "IntLiteral"
  | str _ => "StringLiteral"
  | bool _ => "BoolLiteral"
  | none => "NoneLiteral"
  | template _ => "InterpolatedStringExpr"
  | var _ => "Deref"
  | assign _ _ => "Assign"
  | binary .add _ _ | binary .sub _ _ | binary .mul _ _ | binary .div _ _ => "Arithmetics"
  | binary .concat _ _ => "AddString"
  | binary .greater _ _ | binary .less _ _ | binary .equal _ _ | binary .atLeast _ _ => "Compare"
  | binary .and _ _ => "LogicalAndExpr"
  | binary .or _ _ => "LogicalOrExpr"
  | unary .neg _ => "NegationExpr"
  | unary .not _ => "LogicalNotExpr"
  | choice _ _ _ => "TernaryExpr"
  | ifElse _ _ _ => "Ifelse"
  | forLoop _ _ _ _ => "ForLoop"
  | block _ => "Block"
  | declare _ _ _ => "Declare"
  | call _ _ => "Invoke"
  | print _ => "PrintExpr"
  | read _ => "ReadFileExpr"
  | split _ _ => "SplitStringExpr"

/-- The nodes directly below a node, in the order in which they are written. -/
def children : Node → List Node
  | int _ | str _ | bool _ | none | template _ | var _ => []
  | assign _ e | unary _ e | print e | read e | declare _ _ e => [e]
  | binary _ l r | split l r => [l, r]
  | choice c t f | ifElse c t f => [c, t, f]
  | forLoop _ s e b => [s, e, b]
  | block ns | call _ ns => ns

/-- What stands below a node is smaller. -/
theorem sizeOf_lt_of_mem_children {n m : Node} (h : m ∈ n.children) : sizeOf m < sizeOf n := by
  cases n <;> simp only [children, List.mem_cons, List.not_mem_nil, or_false] at h
  case block ns =>
    have := List.sizeOf_lt_of_mem h
    simp only [block.sizeOf_spec]
    omega
  case call name ns =>
    have := List.sizeOf_lt_of_mem h
    simp only [call.sizeOf_spec]
    omega
  all_goals rcases h with rfl | rfl | rfl <;> simp <;> omega

end Node

end Kestrel
