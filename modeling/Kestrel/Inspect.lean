import Kestrel.Scope.Store
import Kestrel.Syntax.Outline

/-!
# Inspection

The full form of nodes and values: the kind of each, with every field by name. It is meant for those
who work on programs rather than for those who run them, so texts are quoted and the scope of a
function is described.

* `Node.inspect?`, `Value.inspect?` — the full form, unless an integer in it is too long to be
  written;
* `Store.describe` — a scope in a few words.
-/

namespace Kestrel

open Text

/-- A kind with its fields. -/
def construct (kind : String) (fields : List (String × String)) : String :=
  kind ++ "(" ++ ", ".intercalate (fields.map fun (name, text) => name ++ "=" ++ text) ++ ")"

/-- Texts between brackets. -/
def bracket (texts : List String) : String :=
  "[" ++ ", ".intercalate texts ++ "]"

/-- The full form of an integer. -/
def inspectInt (n : Int) : String :=
  construct "IntData" [("value", numeral n)]

/-- The full form of a text. -/
def inspectStr (s : String) : String :=
  construct "StringData" [("value", quote s)]

/-- The full form of a truth value. -/
def inspectBool (b : Bool) : String :=
  construct "BoolData" [("value", if b then "True" else "False")]

/-- The field that tells operators of one kind apart, if the kind has several. -/
def BinaryOp.inspect : BinaryOp → List (String × String)
  | .add => [("operator", "<Operator.Add: '+'>")]
  | .sub => [("operator", "<Operator.Sub: '-'>")]
  | .mul => [("operator", "<Operator.Mul: '*'>")]
  | .div => [("operator", "<Operator.Div: '/'>")]
  | .greater => [("comparator", "<Comparator.GT: '>'>")]
  | .less => [("comparator", "<Comparator.LT: '<'>")]
  | .equal => [("comparator", "<Comparator.EQ: '=='>")]
  | .atLeast => [("comparator", "<Comparator.GE: '>='>")]
  | .concat | .and | .or => []

/-- The names of the fields that hold the two operands. -/
def BinaryOp.operandNames : BinaryOp → String × String
  | .and | .or => ("left", "right")
  | _ => ("e1", "e2")

mutual

/-- The full form of a node, with integers of any length. -/
def Node.inspect : Node → String
  | .int value => construct "IntLiteral" [("value", inspectInt value)]
  | .str text => construct "StringLiteral" [("value", inspectStr text)]
  | .bool value => construct "BoolLiteral" [("value", inspectBool value)]
  | .none => construct "NoneLiteral" []
  | .template text => construct "InterpolatedStringExpr" [("interpolated_text", quote text)]
  | .var name => construct "Deref" [("name", quote name)]
  | .assign name e => construct "Assign" [("name", quote name), ("expr", e.inspect)]
  | .binary op l r =>
    construct (Node.binary op l r).label (op.inspect ++
      [(op.operandNames.1, l.inspect), (op.operandNames.2, r.inspect)])
  | .unary op e => construct (Node.unary op e).label [("expr", e.inspect)]
  | .choice c t f =>
    construct "TernaryExpr"
      [("condition", c.inspect), ("true_expr", t.inspect), ("false_expr", f.inspect)]
  | .ifElse c t f =>
    construct "Ifelse"
      [("condition", c.inspect), ("then_branch", t.inspect), ("else_branch", f.inspect)]
  | .forLoop name first last body =>
    construct "ForLoop" [("iterator", quote name), ("start", first.inspect), ("end", last.inspect),
      ("body", body.inspect)]
  | .block ns => construct "Block" [("statements", bracket (Node.inspectAll ns))]
  | .declare name params body =>
    construct "Declare" [("name", quote name), ("params", quoteNames params), ("body", body.inspect)]
  | .call name args =>
    construct "Invoke" [("function_name", quote name), ("args", bracket (Node.inspectAll args))]
  | .print e => construct "PrintExpr" [("expr", e.inspect)]
  | .read e => construct "ReadFileExpr" [("file_path_expr", e.inspect)]
  | .split s d =>
    construct "SplitStringExpr" [("string_to_split", s.inspect), ("delimiter", d.inspect)]

/-- The full forms of several nodes. -/
def Node.inspectAll : List Node → List String
  | [] => []
  | n :: ns => n.inspect :: Node.inspectAll ns

end

/-- The full form of a node, unless an integer in it is too long to be written. -/
def Node.inspect? (n : Node) : Option String :=
  if n.writable then some n.inspect else Option.none

/-- A scope in a few words: how deep it lies and which names it binds. -/
def Store.describe (s : Store) (scope : ScopeId) : String :=
  "<Environment depth=" ++ toString (s.depth scope) ++ " bindings="
    ++ quoteNames (s.bindings scope).names ++ ">"

mutual

/-- The full form of a value, unless an integer in it is too long to be written. -/
def Value.inspect? (s : Store) : Value → Option String
  | .int n => (numeral? n).map fun _ => inspectInt n
  | .str t => some (inspectStr t)
  | .bool b => some (inspectBool b)
  | .none => some (construct "NoneData" [])
  | .list vs => (Value.inspectAll? s vs).map fun ts => construct "ListData" [("elements", bracket ts)]
  | .record es =>
    (Value.inspectEntries? s es).map fun ts =>
      construct "ObjectData" [("properties", "\x7b" ++ ", ".intercalate ts ++ "\x7d")]
  | .function params body scope name =>
    body.inspect?.map fun t =>
      construct "FunctionData" [("parameters", quoteNames params), ("body", t),
        ("closure", s.describe scope), ("name", quote name)]

/-- The full forms of several values. -/
def Value.inspectAll? (s : Store) : List Value → Option (List String)
  | [] => some []
  | v :: vs =>
    match v.inspect? s, Value.inspectAll? s vs with
    | some t, some ts => some (t :: ts)
    | _, _ => Option.none

/-- The full forms of a record's entries. -/
def Value.inspectEntries? (s : Store) : List (String × Value) → Option (List String)
  | [] => some []
  | (key, v) :: es =>
    match v.inspect? s, Value.inspectEntries? s es with
    | some t, some ts => some ((quote key ++ ": " ++ t) :: ts)
    | _, _ => Option.none

end

end Kestrel
