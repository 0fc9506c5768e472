import Kestrel.Proofs.Outlines.Quoting
import Kestrel.Syntax.Outline

/-!
# What the line of a node says

The line of a node names its kind and shows what the node holds besides other nodes. Both can be read off
the line: the name of the kind ends in front of the first parenthesis, and the fields of a kind are always
the same ones, with quoted texts in them. So nodes with the same line differ at most in the nodes below.

* `NodeKind`, `NodeKind.ofLabel?_label` — the kinds of nodes by name;
* `NodeKind.Holds`, `Node.data`, `NodeKind.node` — what a node holds besides other nodes, and the node again;
* `fieldsText`, `NodeKind.eq_of_fieldsText` — what is held can be read off the fields;
* `Node.data_eq_of_heading` — the line of a node tells its kind and what it holds;
* `Node.printable_heading` — it can be printed, so it is a single line.
-/

namespace Kestrel

open Text

/-! ### Kinds -/

/-- The kinds of nodes that have a name of their own. -/
inductive NodeKind where
  | int
  | str
  | bool
  | none
  | template
  | var
  | assign
  | arithmetic
  | concat
  | compare
  | and
  | or
  | neg
  | not
  | choice
  | ifElse
  | forLoop
  | block
  | declare
  | call
  | print
  | read
  | split
  deriving DecidableEq

namespace NodeKind

/-- The name of a kind. -/
def label : NodeKind → String
  | int => "IntLiteral"
  | str => "StringLiteral"
  | bool => "BoolLiteral"
  | none => "NoneLiteral"
  | template => "InterpolatedStringExpr"
  | var => "Deref"
  | assign => "Assign"
  | arithmetic => "Arithmetics"
  | concat => "AddString"
  | compare => "Compare"
  | and => "LogicalAndExpr"
  | or => "LogicalOrExpr"
  | neg => "NegationExpr"
  | not => "LogicalNotExpr"
  | choice => "TernaryExpr"
  | ifElse => "Ifelse"
  | forLoop => "ForLoop"
  | block => "Block"
  | declare => "Declare"
  | call => "Invoke"
  | print => "PrintExpr"
  | read => "ReadFileExpr"
  | split => "SplitStringExpr"

/-- All kinds. -/
def all : List NodeKind :=
  [int, str, bool, none, template, var, assign, arithmetic, concat, compare, and, or, neg, not, choice,
    ifElse, forLoop, block, declare, call, print, read, split]

/-- The kind with a name. -/
def ofLabel? (s : String) : Option NodeKind :=
  all.find? (·.label = s)

/-- A name belongs to one kind only. -/
theorem ofLabel?_label (k : NodeKind) : ofLabel? k.label = some k := by
  cases k <;> decide

/-- What a node of the kind holds besides other nodes. Of a list of nodes this is whether it is empty. -/
def Holds : NodeKind → Type
  | int => Int
  | bool => Bool
  | str | template | var | assign | forLoop => String
  | arithmetic | compare => BinaryOp
  | block => Bool
  | declare => String × List String
  | call => String × Bool
  | none | concat | and | or | neg | not | choice | ifElse | print | read | split => Unit

/-- The text of a truth value. -/
def truthText (value : Bool) : String := if value then "true" else "false"

/-- The field that shows that a list of nodes is empty. -/
def emptyField (name : String) (empty : Bool) : List (String × String) :=
  if empty then [(name, "[]")] else []

/-- What a node of the kind holds besides other nodes, by field. -/
def fields : (k : NodeKind) → k.Holds → List (String × String)
  | int, value => [("value", quote (numeral value))]
  | str, text => [("value", quote text)]
  | bool, value => [("value", quote (truthText value))]
  | template, text => [("interpolated_text", quote text)]
  | var, name | assign, name => [("name", quote name)]
  | arithmetic, op => [("operator", quote op.symbol)]
  | compare, op => [("comparator", quote op.symbol)]
  | forLoop, name => [("iterator", quote name)]
  | block, empty => emptyField "statements" empty
  | declare, (name, params) => [("name", quote name), ("params", quoteNames params)]
  | call, (name, empty) => ("function_name", quote name) :: emptyField "args" empty
  | none, _ | concat, _ | and, _ | or, _ | neg, _ | not, _ | choice, _ | ifElse, _ | print, _ | read, _
  | split, _ => []

/-- The node of a kind, from what it holds and the nodes below. -/
def node : (k : NodeKind) → k.Holds → List Node → Node
  | int, value, _ => .int value
  | str, text, _ => .str text
  | bool, value, _ => .bool value
  | template, text, _ => .template text
  | var, name, _ => .var name
  | assign, name, [e] => .assign name e
  | arithmetic, op, [l, r] | compare, op, [l, r] => .binary op l r
  | concat, _, [l, r] => .binary .concat l r
  | and, _, [l, r] => .binary .and l r
  | or, _, [l, r] => .binary .or l r
  | neg, _, [e] => .unary .neg e
  | not, _, [e] => .unary .not e
  | choice, _, [c, t, f] => .choice c t f
  | ifElse, _, [c, t, f] => .ifElse c t f
  | forLoop, name, [s, e, b] => .forLoop name s e b
  | block, _, ns => .block ns
  | declare, (name, params), [e] => .declare name params e
  | call, (name, _), ns => .call name ns
  | print, _, [e] => .print e
  | read, _, [e] => .read e
  | split, _, [l, r] => .split l r
  | _, _, _ => .none

end NodeKind

namespace Node

/-- The kind of a node, and what it holds besides other nodes. -/
def data : Node → (k : NodeKind) × k.Holds
  | int value => ⟨.int, value⟩
  | str text => ⟨.str, text⟩
  | bool value => ⟨.bool, value⟩
  | none => ⟨.none, ()⟩
  | template text => ⟨.template, text⟩
  | var name => ⟨.var, name⟩
  | assign name _ => ⟨.assign, name⟩
  | binary op _ _ =>
    match op with
    | .add | .sub | .mul | .div => ⟨.arithmetic, op⟩
    | .greater | .less | .equal | .atLeast => ⟨.compare, op⟩
    | .concat => ⟨.concat, ()⟩
    | .and => ⟨.and, ()⟩
    | .or => ⟨.or, ()⟩
  | unary .neg _ => ⟨.neg, ()⟩
  | unary .not _ => ⟨.not, ()⟩
  | choice _ _ _ => ⟨.choice, ()⟩
  | ifElse _ _ _ => ⟨.ifElse, ()⟩
  | forLoop name _ _ _ => ⟨.forLoop, name⟩
  | block statements => ⟨.block, statements.isEmpty⟩
  | declare name params _ => ⟨.declare, (name, params)⟩
  | call name args => ⟨.call, (name, args.isEmpty)⟩
  | print _ => ⟨.print, ()⟩
  | read _ => ⟨.read, ()⟩
  | split _ _ => ⟨.split, ()⟩

theorem label_eq (n : Node) : n.label = n.data.1.label := by
  cases n with
  | binary op => cases op <;> rfl
  | unary op => cases op <;> rfl
  | _ => rfl

theorem fields_eq (n : Node) : n.fields = n.data.1.fields n.data.2 := by
  cases n with
  | binary op => cases op <;> rfl
  | unary op => cases op <;> rfl
  | _ => rfl

/-- A node is made of what it holds and the nodes below. -/
theorem node_data (n : Node) : n.data.1.node n.data.2 n.children = n := by
  cases n with
  | binary op => cases op <;> rfl
  | unary op => cases op <;> rfl
  | _ => rfl

end Node

/-! ### Fields -/

/-- A field, as it is shown. -/
def fieldChars (field : String × String) : List Char :=
  field.1.toList ++ '=' :: field.2.toList

/-- The fields behind the first one, and the parenthesis behind all of them. -/
def moreFields (fields : List (String × String)) : List Char :=
  fields.flatMap (", ".toList ++ fieldChars ·) ++ [')']

/-- What the line of a node shows behind the name of its kind. -/
def fieldsText : List (String × String) → List Char
  | [] => []
  | field :: fields => '(' :: fieldChars field ++ moreFields fields

theorem moreFields_singleton (name text : String) :
    moreFields [(name, text)] = ", ".toList ++ (name.toList ++ '=' :: (text.toList ++ [')'])) := by
  rw [moreFields, List.flatMap_singleton, fieldChars, List.append_assoc, List.append_assoc,
    List.cons_append]

/-- What stands between the members of a row stands in front of each but the first. -/
theorem toList_intercalate_map {α : Type} (separator : String) (f : α → String) (a : α) (as : List α) :
    (separator.intercalate ((a :: as).map f)).toList =
      (f a).toList ++ as.flatMap fun b => separator.toList ++ (f b).toList := by
  induction as generalizing a with
  | nil => rw [List.map_singleton, String.intercalate_singleton, List.flatMap_nil, List.append_nil]
  | cons a' as ih =>
    rw [List.map_cons, List.map_cons, String.intercalate_cons_cons, String.toList_append,
      String.toList_append, ← List.map_cons, ih, List.flatMap_cons, List.append_assoc, List.append_assoc]

theorem Node.toList_heading (n : Node) :
    n.heading.toList = n.label.toList ++ fieldsText n.fields := by
  have hfield (field : String × String) :
      (field.1 ++ "=" ++ field.2).toList = fieldChars field := by
    rw [String.toList_append, String.toList_append, List.append_assoc]
    rfl
  rw [Node.heading]
  cases n.fields with
  | nil => exact (List.append_nil _).symm
  | cons field fields =>
    rw [List.isEmpty_cons, if_neg Bool.false_ne_true, String.toList_append, String.toList_append,
      String.toList_append, toList_intercalate_map]
    simp only [hfield, fieldsText, moreFields, List.append_assoc]
    rfl

/-! ### Reading off what is held -/

theorem eq_of_toDigits {n m : Nat} (h : Nat.toDigits 10 n = Nat.toDigits 10 m) : n = m := by
  have hvalue := congrArg (Nat.ofDigitChars 10 · 0) h
  simpa only [Nat.ofDigitChars_ten_toDigits] using hvalue

theorem toList_numeral (n : Int) :
    (numeral n).toList = if n < 0 then '-' :: Nat.toDigits 10 n.natAbs else Nat.toDigits 10 n.natAbs := by
  rw [numeral]
  split
  · rw [String.toList_append, Nat.toList_repr]
    rfl
  · rw [Nat.toList_repr]

theorem numeral_inj {n m : Int} (h : numeral n = numeral m) : n = m := by
  -- no digit is a minus sign
  have hminus (n m : Nat) : '-' :: Nat.toDigits 10 n ≠ Nat.toDigits 10 m := by
    intro heq
    have hmem : '-' ∈ Nat.toDigits 10 m := heq ▸ List.mem_cons_self
    exact absurd (Nat.isDigit_of_mem_toDigits (by decide) (by decide) hmem) (by decide)
  have hchars := congrArg String.toList h
  rw [toList_numeral, toList_numeral] at hchars
  split at hchars
  next hn =>
    split at hchars
    next hm =>
      have habs := eq_of_toDigits (List.cons.inj hchars).2
      omega
    next => exact absurd hchars (hminus _ _)
  next hn =>
    split at hchars
    next => exact absurd hchars.symm (hminus _ _)
    next hm =>
      have habs := eq_of_toDigits hchars
      omega

theorem symbol_inj {op op' : BinaryOp} (h : op.symbol = op'.symbol) : op = op' := by
  have hsymbol := congrArg BinaryOp.ofSymbol? h
  rw [BinaryOp.ofSymbol?_symbol, BinaryOp.ofSymbol?_symbol] at hsymbol
  exact Option.some.inj hsymbol

theorem fieldsText_quote (name text : String) (fields : List (String × String)) :
    fieldsText ((name, quote text) :: fields) =
      '(' :: (name.toList ++ '=' :: (quoteChars text.toList ++ moreFields fields)) := by
  rw [fieldsText, fieldChars, quote, String.toList_ofList, List.cons_append, List.append_assoc,
    List.cons_append]

/-- The text of the first field can be read off if it is quoted. -/
theorem quote_inj_of_fieldsText {name s t : String} {fields fields' : List (String × String)}
    (h : fieldsText ((name, quote s) :: fields) = fieldsText ((name, quote t) :: fields')) :
    s = t ∧ moreFields fields = moreFields fields' := by
  rw [fieldsText_quote, fieldsText_quote] at h
  have hshown := List.append_cancel_left (List.cons.inj h).2
  obtain ⟨htext, hmore⟩ := quoteChars_append_inj (List.cons.inj hshown).2
  exact ⟨String.toList_inj.mp htext, hmore⟩

/-- The quoted names behind the first one, and the bracket behind all of them. -/
def moreNames (names : List String) : List Char :=
  (names.flatMap fun name => ", ".toList ++ quoteChars name.toList) ++ [']']

theorem toList_quoteNames_cons (name : String) (names : List String) :
    (quoteNames (name :: names)).toList = '[' :: (quoteChars name.toList ++ moreNames names) := by
  have hquote (name : String) : (quote name).toList = quoteChars name.toList := String.toList_ofList
  rw [quoteNames, String.toList_append, String.toList_append, toList_intercalate_map]
  simp only [hquote, moreNames, List.append_assoc]
  rfl

theorem moreNames_inj {names names' : List String} (h : moreNames names = moreNames names') :
    names = names' := by
  induction names generalizing names' with
  | nil =>
    cases names' with
    | nil => rfl
    | cons name' names' => cases h
  | cons name names ih =>
    cases names' with
    | nil => cases h
    | cons name' names' =>
      rw [moreNames, moreNames, List.flatMap_cons, List.flatMap_cons, List.append_assoc, List.append_assoc,
        List.append_assoc, List.append_assoc] at h
      obtain ⟨hname, hnames⟩ := quoteChars_append_inj (List.append_cancel_left h)
      rw [String.toList_inj.mp hname, ih hnames]

theorem quoteNames_inj {names names' : List String} (h : quoteNames names = quoteNames names') :
    names = names' := by
  have hchars := congrArg String.toList h
  -- a quoted name does not start with a bracket
  have hempty (name : String) (names : List String) :
      (quoteNames (name :: names)).toList ≠ (quoteNames []).toList := by
    intro heq
    have hmark := quoteMark_mem name.toList
    rw [toList_quoteNames_cons, quoteChars_append] at heq
    rw [(List.cons.inj (List.cons.inj heq).2).1] at hmark
    exact absurd hmark (by decide)
  cases names with
  | nil =>
    cases names' with
    | nil => rfl
    | cons name' names' => exact absurd hchars.symm (hempty name' names')
  | cons name names =>
    cases names' with
    | nil => exact absurd hchars (hempty name names)
    | cons name' names' =>
      rw [toList_quoteNames_cons, toList_quoteNames_cons] at hchars
      obtain ⟨hname, hnames⟩ := quoteChars_append_inj (List.cons.inj hchars).2
      rw [String.toList_inj.mp hname, moreNames_inj hnames]

namespace NodeKind

/-- What a node of the kind holds can be read off its fields. -/
theorem eq_of_fieldsText :
    (k : NodeKind) → (a b : k.Holds) → fieldsText (k.fields a) = fieldsText (k.fields b) → a = b
  | int, _, _, h => numeral_inj (quote_inj_of_fieldsText h).1
  | str, _, _, h | template, _, _, h | var, _, _, h | assign, _, _, h | forLoop, _, _, h =>
    (quote_inj_of_fieldsText h).1
  | arithmetic, _, _, h | compare, _, _, h => symbol_inj (quote_inj_of_fieldsText h).1
  | bool, a, b, h => by
    have htext := (quote_inj_of_fieldsText h).1
    cases a <;> cases b <;> first | rfl | exact absurd htext (by decide)
  | block, a, b, h => by
    cases a <;> cases b <;> first | rfl | cases h
  | declare, (name, params), (name', params'), h => by
    obtain ⟨rfl, hparams⟩ := quote_inj_of_fieldsText h
    rw [moreFields_singleton, moreFields_singleton] at hparams
    have hshown := List.append_cancel_left (List.append_cancel_left hparams)
    have hnames := List.append_cancel_right (List.cons.inj hshown).2
    rw [quoteNames_inj (String.toList_inj.mp hnames)]
  | call, (name, empty), (name', empty'), h => by
    obtain ⟨rfl, hempty⟩ := quote_inj_of_fieldsText h
    cases empty <;> cases empty' <;> first | rfl | exact absurd hempty (by decide)
  | none, _, _, _ | concat, _, _, _ | and, _, _, _ | or, _, _, _ | neg, _, _, _ | not, _, _, _
  | choice, _, _, _ | ifElse, _, _, _ | print, _, _, _ | read, _, _, _ | split, _, _, _ => rfl

theorem label_inj {k l : NodeKind} (h : k.label = l.label) : k = l := by
  have hkind := congrArg ofLabel? h
  rw [ofLabel?_label, ofLabel?_label] at hkind
  exact Option.some.inj hkind

theorem paren_not_mem_label (k : NodeKind) : '(' ∉ k.label.toList := by
  cases k <;> decide

theorem printable_label (k : NodeKind) : Printable k.label.toList := by
  cases k <;> decide

/-- A name starts with a letter. -/
theorem exists_label_cons (k : NodeKind) : ∃ c cs, k.label.toList = c :: cs ∧ c ≠ ' ' := by
  cases k <;> exact ⟨_, _, rfl, by decide⟩

end NodeKind

/-! ### Printable characters -/

theorem printable_quote (text : String) : Printable (quote text).toList := by
  rw [quote, String.toList_ofList]
  exact printable_quoteChars text.toList

theorem printable_quoteNames (names : List String) : Printable (quoteNames names).toList := by
  cases names with
  | nil => decide
  | cons name names =>
    have hmore : Printable (names.flatMap fun name => ", ".toList ++ quoteChars name.toList) :=
      printable_flatMap fun name _ => .append (by decide) (printable_quoteChars name.toList)
    rw [toList_quoteNames_cons, moreNames]
    exact .cons (by decide) (.append (printable_quoteChars name.toList) (hmore.append (by decide)))

theorem printable_fieldChars {name text : String} (hname : Printable name.toList)
    (htext : Printable text.toList) : Printable (fieldChars (name, text)) :=
  hname.append (htext.cons (by decide))

theorem printable_fieldsText {fields : List (String × String)}
    (h : ∀ field ∈ fields, Printable (fieldChars field)) : Printable (fieldsText fields) := by
  cases fields with
  | nil => exact printable_nil
  | cons field fields =>
    obtain ⟨hfield, hfields⟩ := List.forall_mem_cons.mp h
    have hmore : Printable (fields.flatMap (", ".toList ++ fieldChars ·)) :=
      printable_flatMap fun field hmem => .append (by decide) (hfields field hmem)
    exact .append (hfield.cons (by decide)) (hmore.append (by decide))

/-- What a node holds is shown in characters that can be printed. -/
theorem NodeKind.printable_fields :
    (k : NodeKind) → (held : k.Holds) → ∀ field ∈ k.fields held, Printable (fieldChars field)
  | int, _ | str, _ | bool, _ | template, _ | var, _ | assign, _ | arithmetic, _ | compare, _
  | forLoop, _ =>
    List.forall_mem_singleton.mpr (printable_fieldChars (by decide) (printable_quote _))
  | block, true => by decide
  | block, false => by decide
  | declare, (name, params) => by
    refine List.forall_mem_cons.mpr ⟨?_, List.forall_mem_singleton.mpr ?_⟩
    · exact printable_fieldChars (by decide) (printable_quote name)
    · exact printable_fieldChars (by decide) (printable_quoteNames params)
  | call, (name, empty) => by
    refine List.forall_mem_cons.mpr ⟨?_, ?_⟩
    · exact printable_fieldChars (by decide) (printable_quote name)
    · cases empty <;> decide
  | none, _ | concat, _ | and, _ | or, _ | neg, _ | not, _ | choice, _ | ifElse, _ | print, _ | read, _
  | split, _ => fun _ h => absurd h List.not_mem_nil

/-! ### Lines -/

/-- What is shown behind a name starts with a parenthesis. -/
theorem takeWhile_append_fieldsText {cs : List Char} (h : '(' ∉ cs) (fields : List (String × String)) :
    (cs ++ fieldsText fields).takeWhile (· ≠ '(') = cs := by
  have hcs : ∀ c ∈ cs, decide (c ≠ '(') = true := by
    intro c hc
    exact decide_eq_true fun heq => h (heq ▸ hc)
  rw [List.takeWhile_append_of_pos hcs]
  cases fields with
  | nil => exact List.append_nil cs
  | cons => exact List.append_nil cs

namespace Node

variable {n m : Node}

/-- The line of a node tells its kind and what it holds besides other nodes. -/
theorem data_eq_of_heading (h : n.heading = m.heading) : n.data = m.data := by
  have hchars := congrArg String.toList h
  rw [toList_heading, toList_heading, label_eq, label_eq, fields_eq, fields_eq] at hchars
  generalize n.data = a at hchars ⊢
  generalize m.data = b at hchars ⊢
  obtain ⟨k, held⟩ := a
  obtain ⟨l, held'⟩ := b
  have hlabel := congrArg (List.takeWhile (· ≠ '(')) hchars
  rw [takeWhile_append_fieldsText k.paren_not_mem_label,
    takeWhile_append_fieldsText l.paren_not_mem_label] at hlabel
  obtain rfl := NodeKind.label_inj (String.toList_inj.mp hlabel)
  rw [k.eq_of_fieldsText held held' (List.append_cancel_left hchars)]

/-- A node is determined by its line and the nodes below. -/
theorem eq_of_heading (h : n.heading = m.heading) (hchildren : n.children = m.children) : n = m := by
  rw [← n.node_data, ← m.node_data, data_eq_of_heading h, hchildren]

/-- The line of a node can be printed, so it is a single line. -/
theorem printable_heading (n : Node) : Printable n.heading.toList := by
  rw [toList_heading, label_eq, fields_eq]
  exact .append n.data.1.printable_label
    (printable_fieldsText (n.data.1.printable_fields n.data.2))

/-- The line of a node starts with a letter. -/
theorem exists_heading_cons (n : Node) : ∃ c cs, n.heading.toList = c :: cs ∧ c ≠ ' ' := by
  obtain ⟨c, cs, hlabel, hc⟩ := n.data.1.exists_label_cons
  refine ⟨c, cs ++ fieldsText n.fields, ?_, hc⟩
  rw [toList_heading, label_eq, hlabel, List.cons_append]

end Node

end Kestrel
