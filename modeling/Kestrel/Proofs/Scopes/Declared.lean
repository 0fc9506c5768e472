import Kestrel.Proofs.Contract.Expression
import Kestrel.Proofs.Lockstep.Text
import Kestrel.Syntax.Search

/-!
# Declarations in a tree

Functions come from the declarations in programs. A text that is read as a single expression has
none: the reader makes expressions of operands, and no operand is a declaration.

* `Node.declarations` — the declarations in a tree, also those inside other declarations;
* `Node.DeclaresNone` — trees without declarations;
* `declaresNone_of_parseExpression` — an expression holds no declaration.
-/

namespace Kestrel

namespace Node

/-- Does the node declare a function? -/
def isDeclaration : Node → Bool
  | declare _ _ _ => true
  | _ => false

/-- The declarations in a tree. -/
def declarations (n : Node) : List Node := n.findAll isDeclaration

theorem mem_declarations_iff {n d : Node} :
    d ∈ n.declarations ↔ n.isDeclaration = true ∧ d = n ∨ ∃ m ∈ n.children, d ∈ m.declarations := by
  rw [declarations, findAll_eq, List.mem_append, List.mem_flatMap]
  refine or_congr ?_ Iff.rfl
  split
  case isTrue h => simp [h]
  case isFalse h => simp [h]

theorem mem_declarations_of_mem_children {n m d : Node} (hm : m ∈ n.children)
    (hd : d ∈ m.declarations) : d ∈ n.declarations :=
  mem_declarations_iff.mpr (.inr ⟨m, hm, hd⟩)

/-- A declaration inside a declaration of a tree is one of the tree. -/
theorem mem_declarations_trans {n m d : Node} (hm : m ∈ n.declarations) (hd : d ∈ m.declarations) :
    d ∈ n.declarations := by
  rcases mem_declarations_iff.mp hm with ⟨-, rfl⟩ | ⟨k, hk, hm⟩
  · exact hd
  · have := sizeOf_lt_of_mem_children hk
    exact mem_declarations_of_mem_children hk (mem_declarations_trans hm hd)
termination_by sizeOf n

/-- The tree holds no declaration. -/
def DeclaresNone (n : Node) : Prop := n.declarations = []

theorem DeclaresNone.of_children {n : Node} (hn : n.isDeclaration = false)
    (h : ∀ m ∈ n.children, m.DeclaresNone) : n.DeclaresNone := by
  rw [DeclaresNone, declarations, findAll_eq, hn, List.append_eq_nil_iff, List.flatMap_eq_nil_iff]
  exact ⟨rfl, h⟩

theorem DeclaresNone.of_leaf {n : Node} (hn : n.isDeclaration = false) (h : n.children = []) :
    n.DeclaresNone :=
  of_children hn (h ▸ List.forall_mem_nil _)

end Node

/-! ### Expressions -/

/-- What is made of expressions without declarations is one. -/
theorem Reader.passedOn_declaresNone : PassedOn (fun _ => True) Node.DeclaresNone where
  int _ := .of_leaf rfl rfl
  str _ := .of_leaf rfl rfl
  bool _ := .of_leaf rfl rfl
  none := .of_leaf rfl rfl
  template _ := .of_leaf rfl rfl
  var _ := .of_leaf rfl rfl
  binary _ hl hr := .of_children rfl (by simpa [Node.children] using ⟨hl, hr⟩)
  unary _ he := .of_children rfl (by simpa [Node.children] using he)
  choice hc ht hf := .of_children rfl (by simpa [Node.children] using ⟨hc, ht, hf⟩)
  call _ hargs := .of_children rfl hargs
  print he := .of_children rfl (by simpa [Node.children] using he)
  read he := .of_children rfl (by simpa [Node.children] using he)
  split hs hd := .of_children rfl (by simpa [Node.children] using ⟨hs, hd⟩)

/-- An expression holds no declaration. -/
theorem declaresNone_of_parseExpression {source filename : String} {e : Node}
    (h : parseExpression source filename = .ok e) : e.DeclaresNone := by
  obtain ⟨c, he, -⟩ := Reader.readExpression_eq_ok_iff.mp (parseExpression_eq_ok_iff.mp h)
  have hexpression := Reader.ensures_expressionAt .plain Reader.passedOn_declaresNone _ True he
  exact (hexpression ⟨True.intro, True.intro⟩).2.1

end Kestrel
