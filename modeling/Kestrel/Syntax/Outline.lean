import Kestrel.Syntax.Search
import Kestrel.Text.Quoted

/-!
# Outlines

The outline of a tree has one line per node: two spaces for each level, the kind of the node, and in
parentheses what it holds besides other nodes. A list of nodes is shown as such only where it is
empty, since otherwise its members follow on lines of their own. The level of the root is given. It may be
negative, and no spaces stand in front of a line at a negative level.

* `Node.heading` — the line of one node, without its indentation;
* `Node.outline` — the lines of a tree;
* `Node.outlineText?` — the whole outline, unless an integer is too long to be written.
-/

namespace Kestrel

open Text

/-- Names in a row, each in quoted form, between brackets. -/
def quoteNames (names : List String) : String :=
  "[" ++ ", ".intercalate (names.map quote) ++ "]"

namespace Node

/-- What a node holds besides other nodes, by field. -/
def fields : Node → List (String × String)
  | int value => [("value", quote (numeral value))]
  | str text => [("value", quote text)]
  | bool value => [("value", quote (if value then "true" else "false"))]
  | template text => [("interpolated_text", quote text)]
  | var name | assign name _ => [("name", quote name)]
  | binary op _ _ =>
    match op with
    | .add | .sub | .mul | .div => [("operator", quote op.symbol)]
    | .greater | .less | .equal | .atLeast => [("comparator", quote op.symbol)]
    | .concat | .and | .or => []
  | forLoop name _ _ _ => [("iterator", quote name)]
  | block statements => if statements.isEmpty then [("statements", "[]")] else []
  | declare name params _ => [("name", quote name), ("params", quoteNames params)]
  | call name args =>
    ("function_name", quote name) :: if args.isEmpty then [("args", "[]")] else []
  | none | unary _ _ | choice _ _ _ | ifElse _ _ _ | print _ | read _ | split _ _ => []

/-- The line of one node: its kind, and its fields in parentheses if it has any. -/
def heading (n : Node) : String :=
  if n.fields.isEmpty then n.label
  else n.label ++ "(" ++ ", ".intercalate (n.fields.map fun (name, text) => name ++ "=" ++ text) ++ ")"

/-- Two spaces for each level, none if the level is negative. -/
def indentation (level : Int) : String :=
  String.ofList (List.replicate (2 * level).toNat ' ')

/-- The lines of the tree below and including `n`, whose own line stands at the given level. -/
def outline (level : Int) (n : Node) : List String :=
  (indentation level ++ n.heading) :: n.children.attach.flatMap fun m => outline (level + 1) m.1
termination_by sizeOf n
decreasing_by exact sizeOf_lt_of_mem_children m.2

theorem outline_eq (level : Int) (n : Node) :
    n.outline level =
      (indentation level ++ n.heading) :: n.children.flatMap (outline (level + 1)) := by
  rw [outline]
  simp only [List.flatMap_subtype, List.unattach_attach]

/-- The outline of a tree as a text whose lines all end in a line feed. It cannot be written if an
integer has too many digits. -/
def outlineText? (level : Int) (n : Node) : Option String :=
  if n.writable then some (String.join ((n.outline level).map (· ++ "\n"))) else Option.none

end Node

end Kestrel
