import Kestrel.Syntax.Node
import Kestrel.Text.Numeral

/-!
# Searching a tree

* `Node.findAll` — the nodes of a tree that pass a test, each before the nodes below it;
* `Node.isKind` — the test for a kind of node by name, where one name stands for every kind;
* `Node.writable` — can every integer in the tree be written?
-/

namespace Kestrel.Node

/-- The nodes of a tree that pass the test, the root first and then the children's in order. -/
def findAll (p : Node → Bool) (n : Node) : List Node :=
  (if p n then [n] else []) ++ n.children.attach.flatMap fun m => findAll p m.1
termination_by sizeOf n
decreasing_by exact sizeOf_lt_of_mem_children m.2

theorem findAll_eq (p : Node → Bool) (n : Node) :
    n.findAll p = (if p n then [n] else []) ++ n.children.flatMap (findAll p) := by
  rw [findAll]
  simp only [List.flatMap_subtype, List.unattach_attach]

/-- The name that stands for every kind of node. -/
def anyKind : String := "Expr"

/-- Is the node of the kind with the given name? -/
def isKind (kind : String) (n : Node) : Bool :=
  kind = anyKind || n.label = kind

/-- Is the node an integer with too many digits to be written? -/
def isOverlong : Node → Bool
  | int value => (Text.numeral? value).isNone
  | _ => false

/-- Every integer in the tree has few enough digits to be written. -/
def writable (n : Node) : Bool :=
  (n.findAll isOverlong).isEmpty

end Kestrel.Node
