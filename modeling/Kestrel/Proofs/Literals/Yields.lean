import Kestrel.Proofs.Joining.Statement
import Kestrel.Proofs.Literals.Quotations
import Kestrel.Proofs.Names.Touching
import Kestrel.Syntax.Search

/-!
# The texts that a rule reads

A tree holds the texts between quotes of the program it was read from, in the order in which they are
written. For each rule this is said as a balance: the texts from the position on, where it starts, are those
in what it reads and then those from the position on where it stops. What was read before can be put in front
of both sides, so the balances of rules in a row add up.

* `Node.literals` — the texts in a tree;
* `quotedNodes` — the texts in a program, as the reader makes nodes of them;
* `Rule.Yields`, `Rule.Silent` — the balance of a rule, and rules that read no texts;
* `Rule.Yields.bind`, `Rule.Yields.many` and others — the ways to build rules;
* `silent_keyword`, `yields_string` and others — the tokens.
-/

namespace Kestrel

/-! ### Texts in a tree -/

namespace Node

/-- Is the node a text, with placeholders or without? -/
def isLiteral : Node → Bool
  | str _ | template _ => true
  | _ => false

/-- The texts in a tree, in the order in which they are written. -/
def literals (n : Node) : List Node := n.findAll isLiteral

theorem literals_of_children {n : Node} (h : n.isLiteral = false) :
    n.literals = n.children.flatMap literals := by
  rw [literals, findAll_eq, h]
  rfl

/-- A text holds itself. -/
theorem literals_of_isLiteral {n : Node} (h : n.isLiteral = true) : n.literals = [n] := by
  cases n <;> cases h <;> rw [literals, findAll_eq] <;> rfl

theorem literals_of_leaf {n : Node} (h : n.isLiteral = false) (hleaf : n.children = []) :
    n.literals = [] := by
  rw [literals_of_children h, hleaf]
  rfl

section

variable (name : String) (params : List String) (c t f e l r : Node) (ns : List Node)

@[simp] theorem literals_assign : (assign name e).literals = e.literals := by
  simp [literals_of_children (n := assign name e) rfl, children]

@[simp] theorem literals_binary (op : BinaryOp) :
    (binary op l r).literals = l.literals ++ r.literals := by
  simp [literals_of_children (n := binary op l r) rfl, children]

@[simp] theorem literals_unary (op : UnaryOp) : (unary op e).literals = e.literals := by
  simp [literals_of_children (n := unary op e) rfl, children]

@[simp] theorem literals_choice :
    (choice c t f).literals = c.literals ++ (t.literals ++ f.literals) := by
  simp [literals_of_children (n := choice c t f) rfl, children]

@[simp] theorem literals_ifElse :
    (ifElse c t f).literals = c.literals ++ (t.literals ++ f.literals) := by
  simp [literals_of_children (n := ifElse c t f) rfl, children]

@[simp] theorem literals_forLoop :
    (forLoop name l r e).literals = l.literals ++ (r.literals ++ e.literals) := by
  simp [literals_of_children (n := forLoop name l r e) rfl, children]

@[simp] theorem literals_block : (block ns).literals = ns.flatMap literals :=
  literals_of_children rfl

@[simp] theorem literals_declare : (declare name params e).literals = e.literals := by
  simp [literals_of_children (n := declare name params e) rfl, children]

@[simp] theorem literals_call : (call name ns).literals = ns.flatMap literals :=
  literals_of_children rfl

@[simp] theorem literals_print : (print e).literals = e.literals := by
  simp [literals_of_children (n := print e) rfl, children]

@[simp] theorem literals_read : (read e).literals = e.literals := by
  simp [literals_of_children (n := read e) rfl, children]

@[simp] theorem literals_split : (split l r).literals = l.literals ++ r.literals := by
  simp [literals_of_children (n := split l r) rfl, children]

end

end Node

namespace Reader

open Text

variable {α β : Type}

@[simp] theorem literals_stringNode (cs : List Char) :
    (stringNode cs).literals = [stringNode cs] := by
  refine Node.literals_of_isLiteral ?_
  rw [stringNode]
  split <;> rfl

/-- The texts between quotes in a program, as nodes. -/
def quotedNodes (cs : List Char) : List Node :=
  (quotations cs).map fun raw => stringNode (unescapeFrom 0 raw)

/-! ### Rules -/

/-- The texts `front` and then those from where the rule starts are those in what it reads, and then those
from where it stops. -/
def Rule.Yields (front : List Node) (p : Rule α) (texts : α → List Node) : Prop :=
  ∀ ⦃c a c'⦄, p c = .ok a c' → front ++ quotedNodes c.rest = texts a ++ quotedNodes c'.rest

/-- The rule reads no texts. -/
def Rule.Silent (p : Rule α) : Prop :=
  ∀ ⦃c a c'⦄, p c = .ok a c' → quotations c'.rest = quotations c.rest

theorem Rule.Silent.yields {p : Rule α} (h : p.Silent) : p.Yields [] fun _ => [] := by
  intro c a c' ha
  rw [quotedNodes, quotedNodes, h ha]

namespace Rule.Yields

variable {front : List Node} {p q : Rule α} {texts : α → List Node} {f : α → Rule β}
  {texts' : β → List Node}

theorem pure {a : α} (h : front = texts a) : Yields front (pure a) texts := by
  rintro c _ _ ⟨⟩
  rw [h]

/-- Texts that were read before. -/
theorem behind (h : Yields [] p texts) (front : List Node) :
    Yields front p fun a => front ++ texts a := by
  intro c a c' ha
  rw [List.append_assoc, ← h ha, List.nil_append]

/-- The second rule goes on behind the texts that the first one has read. -/
theorem bind (hp : Yields [] p texts) (hf : ∀ a, Yields (front ++ texts a) (f a) texts') :
    Yields front (p >>= f) texts' := by
  intro c b c' hb
  obtain ⟨a, c₁, ha, hb⟩ := bind_eq_ok hb
  rw [hp.behind front ha, hf a hb]

theorem orElse (hp : Yields front p texts) (hq : Yields front q texts) :
    Yields front (Rule.orElse p q) texts := by
  intro c a c' ha
  rcases orElse_eq_ok ha with ha | ⟨-, ha⟩
  · exact hp ha
  · exact hq ha

theorem oneOf {ps : List (Rule α)} (h : ∀ p ∈ ps, Yields front p texts) :
    Yields front (Rule.oneOf ps) texts := by
  induction ps with
  | nil => exact nofun
  | cons p ps ih =>
    exact orElse (h p List.mem_cons_self) (ih fun q hq => h q (List.mem_cons_of_mem _ hq))

theorem optional (hp : Yields [] p texts) :
    Yields [] (Rule.optional p) fun o => o.elim [] texts :=
  orElse (bind hp fun _ => pure rfl) (pure rfl)

theorem many (hp : Yields [] p texts) (bound : Nat) :
    Yields [] (Rule.many p bound) fun as => as.flatMap texts := by
  induction bound with
  | zero => exact nofun
  | succ bound ih =>
    refine orElse (bind hp fun a => bind ih fun as => pure ?_) (pure rfl)
    rw [List.nil_append, List.flatMap_cons]

end Rule.Yields

section

variable {front : List Node} {p : Rule α} {f : α → Rule β} {texts' : β → List Node}

/-- A rule behind one that reads no texts. -/
theorem Rule.Silent.bind (hp : p.Silent) (hf : ∀ a, (f a).Yields front texts') :
    Rule.Yields front (p >>= f) texts' :=
  hp.yields.bind fun a => (List.append_nil front).symm ▸ hf a

theorem Rule.Silent.optional (hp : p.Silent) : (Rule.optional p).Silent := by
  intro c o c' ho
  rcases optional_eq_ok ho with ⟨-, -, rfl⟩ | ⟨a, ha, -⟩
  · rfl
  · exact hp ha

end

/-! ### Tokens -/

theorem all_isInert {w : List Char} (h : w.all isPlain) : w.all isInert :=
  List.all_eq_true.mpr fun x hx => isInert_of_isPlain (List.all_eq_true.mp h x hx)

theorem silent_keyword (k : Keyword) : (keyword k).Silent := by
  intro c a c' ha
  rw [keyword] at ha
  split at ha
  next hk =>
    cases ha
    exact quotations_advance (all_isInert (isPlain_keyword k)) (isPrefixOf_of_keywordAt hk)
  next => cases ha

theorem silent_identifier : identifier.Silent := by
  intro c a c' ha
  obtain ⟨-, -, -, rfl⟩ := identifier_eq_ok ha
  have hplain : (c.skip.rest.takeWhile isNameChar).all isPlain :=
    List.all_eq_true.mpr fun x hx => isPlain_of_isNameChar (List.all_eq_true.mp List.all_takeWhile x hx)
  exact quotations_advance (all_isInert hplain) (List.isPrefixOf_iff_prefix.mpr (List.takeWhile_prefix _))

theorem silent_symbol {s : String} (hs : s.toList.all isInert) : (symbol s).Silent := by
  intro c a c' ha
  rw [symbol] at ha
  split at ha
  next hstarts =>
    cases ha
    exact quotations_advance hs hstarts
  next => cases ha

theorem silent_assignSign : assignSign.Silent := by
  intro c a c' ha
  rw [assignSign] at ha
  split at ha
  next hstarts =>
    cases ha
    rw [Bool.and_eq_true] at hstarts
    exact quotations_advance (w := "=".toList) (by decide) hstarts.1
  next => cases ha

theorem silent_unaryOp : unaryOp.Silent := by
  intro c a c' ha
  rw [unaryOp_eq] at ha
  split at ha
  next hneg =>
    cases ha
    exact quotations_advance (w := "-".toList) (by decide) hneg
  next =>
    split at ha
    next hnot =>
      cases ha
      exact quotations_advance (w := "!".toList) (by decide) hnot
    next => cases ha

theorem silent_binaryOp : binaryOp.Silent := by
  intro c a c' ha
  rw [binaryOp] at ha
  split at ha
  next op hop =>
    cases ha
    have hstarts := List.find?_some hop
    by_cases hdiv : a = .div
    · subst hdiv
      exact quotations_advance_slash hstarts
    · exact quotations_advance (by cases a <;> first | rfl | exact absurd rfl hdiv) hstarts
  next => cases ha

theorem silent_integer : integer.Silent := by
  intro c a c' ha
  have hdigits : (c.skip.rest.takeWhile isDecimalDigit).all isDecimalDigit = true := List.all_takeWhile
  have hlength := Written.length_filterMap_decimalDigit hdigits
  have hplain : (c.skip.rest.takeWhile isDecimalDigit).all isPlain :=
    List.all_eq_true.mpr fun x hx => isPlain_of_isDecimalDigit (List.all_eq_true.mp hdigits x hx)
  rw [integer] at ha
  split at ha
  next => cases ha
  next ds _ =>
    split at ha
    next =>
      cases ha
      rw [hlength]
      exact quotations_advance (all_isInert hplain)
        (List.isPrefixOf_iff_prefix.mpr (List.takeWhile_prefix _))
    next => cases ha

/-- A text between quotes yields its node. -/
theorem yields_string : string.Yields [] fun s => [stringNode s] := by
  intro c a c' ha
  by_cases hquote : c.skip.rest.head? = some '"'
  · obtain ⟨cs, hcs⟩ := List.head?_eq_some_iff.mp hquote
    rw [string_eq hcs] at ha
    split at ha
    next raw hraw =>
      cases ha
      rw [quotedNodes, quotedNodes, ← quotations_skip c, hcs, quotations_quote hraw, Cursor.advance, hcs]
      rfl
    next => cases ha
  · rw [string_eq_no hquote] at ha
    cases ha

theorem Rule.Yields.commaList {p : Rule α} {texts : α → List Node} (hp : p.Yields [] texts) (bound : Nat) :
    (commaList p bound).Yields [] fun as => as.flatMap texts := by
  have htail : (commaTail p bound).Yields [] fun as => as.flatMap texts :=
    .many ((silent_symbol (s := ",") (by decide)).bind fun _ => hp) bound
  refine .orElse (.bind hp fun a => .bind htail fun as => .pure ?_) (.pure rfl)
  rw [List.nil_append, List.flatMap_cons]

end Reader

end Kestrel
