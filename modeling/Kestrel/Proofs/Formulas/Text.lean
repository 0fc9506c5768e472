import Kestrel.Proofs.Written.Lexing
import Kestrel.Template.Formula
import Mathlib.Data.List.Basic
import Mathlib.Data.List.Induction

/-!
# Formulas as they are written

A formula is a first operand and links, each of which is an operator with an operand behind it. Read as
the inside of a placeholder it is applied from the left, whatever its operators are.

* `Operand`, `Link` — the pieces of a formula, with their spelling and with what they must satisfy;
* `spell` — the characters of a formula;
* `fromLeft` — the formula whose last operator is applied last;
* `read_spell` — the reader for placeholders reads this formula.
-/

namespace Kestrel.Formulas

open Reader Text Template

/-! ### Pieces -/

/-- An operand. -/
inductive Operand where
  /-- a numeral, by its digits -/
  | int (digits : List Char)
  /-- a name -/
  | var (name : String)

namespace Operand

/-- The characters of an operand. -/
def spell : Operand → List Char
  | int digits => digits
  | var name => name.toList

/-- A numeral has ASCII digits, at least one and not too many; a name is no keyword, and it is bound. -/
def Valid (bound : String → Bool) : Operand → Prop
  | int digits => digits ≠ [] ∧ (∀ d ∈ digits, Formula.isDigit d) ∧ digits.length ≤ digitLimit
  | var name => Written.isName name.toList ∧ bound name

/-- The operand as a formula. -/
def formula : Operand → Formula
  | int digits => .int (Written.digitsValue digits)
  | var name => .var name

end Operand

/-- The operators of formulas. -/
def arithmetic : List BinaryOp := [.add, .sub, .mul, .div]

/-- An operator with an operand behind it. There may be a space on either side of the operator. -/
structure Link where
  /-- is there a space in front of the operator? -/
  spaceBefore : Bool
  /-- the operator -/
  op : BinaryOp
  /-- is there a space behind it? -/
  spaceAfter : Bool
  /-- the operand -/
  operand : Operand

/-- A space, or nothing. -/
def gap (space : Bool) : List Char := if space then [' '] else []

namespace Link

/-- The characters of a link. -/
def spell (l : Link) : List Char :=
  gap l.spaceBefore ++ (l.op.symbol.toList ++ (gap l.spaceAfter ++ l.operand.spell))

/-- The operator is one of formulas, and the operand is one. -/
structure Valid (bound : String → Bool) (l : Link) : Prop where
  /-- the operator -/
  op : l.op ∈ arithmetic
  /-- the operand -/
  operand : l.operand.Valid bound

end Link

/-- The characters of links in a row. -/
def spellLinks (links : List Link) : List Char := links.flatMap Link.spell

/-- The characters of a formula. -/
def spell (first : Operand) (links : List Link) : List Char := first.spell ++ spellLinks links

/-- The formula in which each operator is applied to all that stands before it. -/
def fromLeft (first : Operand) (links : List Link) : Formula :=
  links.foldl (fun f l => .binary l.op f l.operand.formula) first.formula

/-! ### Characters -/

/-- A character of an operand is a letter, an underscore or a digit. -/
theorem Operand.Valid.isNameChar_of_mem {bound : String → Bool} {x : Operand} (h : x.Valid bound)
    {c : Char} (hc : c ∈ x.spell) : isNameChar c = true := by
  cases x with
  | int digits =>
    have hdigit : ('0' ≤ c && c ≤ '9') = true := h.2.1 c hc
    rw [Reader.isNameChar, hdigit, Bool.or_true]
  | var name => exact Written.isNameChar_of_isName h.1 c hc

/-- Such a character is no operator. -/
theorem operator?_eq_none {c : Char} (h : isNameChar c = true) : Formula.operator? c = none := by
  rw [Formula.operator?.eq_def]
  split
  case h_5 => rfl
  all_goals cases h

/-- Nor is it blank. -/
theorem isBlank_eq_false {c : Char} (h : isNameChar c = true) : isBlank c = false := by
  simp only [isNameChar, isNameStart, Bool.or_eq_true, Bool.and_eq_true, decide_eq_true_eq, Char.le_def,
    UInt32.le_iff_toNat_le] at h
  have hc : c.toNat = c.val.toNat := rfl
  have h0 : '0'.val.toNat = 48 := rfl
  have h9 : '9'.val.toNat = 57 := rfl
  have hA : 'A'.val.toNat = 65 := rfl
  have hZ : 'Z'.val.toNat = 90 := rfl
  have ha : 'a'.val.toNat = 97 := rfl
  have hz : 'z'.val.toNat = 122 := rfl
  rcases h with ((h | h) | rfl) | h
  case inl.inr => decide
  all_goals
    simp [isBlank, blankRanges]
    omega

theorem decimalDigit?_of_isDigit {d : Char} (h : Formula.isDigit d = true) :
    decimalDigit? d = some (d.toNat - '0'.toNat) := by
  have hrange : ('0' ≤ d && d ≤ '9') = true := h
  have hlow : d.toNat < 0x80 := by
    simp only [Bool.and_eq_true, decide_eq_true_eq, Char.le_def, UInt32.le_iff_toNat_le] at hrange
    have h9 : '9'.val.toNat = 57 := rfl
    have hd : d.toNat = d.val.toNat := rfl
    omega
  rw [decimalDigit?, if_pos hlow, if_pos hrange]

theorem isDecimalDigit_of_isDigit {d : Char} (h : Formula.isDigit d = true) :
    isDecimalDigit d = true := by
  rw [isDecimalDigit, decimalDigit?_of_isDigit h]
  rfl

theorem filterMap_decimalDigit? {ds : List Char} (h : ∀ d ∈ ds, Formula.isDigit d) :
    ds.filterMap decimalDigit? = ds.map fun d => d.toNat - '0'.toNat :=
  List.filterMap_eq_map_iff_forall_eq_some.mpr fun d hd => decimalDigit?_of_isDigit (h d hd)

theorem arithmetic_cases {op : BinaryOp} (h : op ∈ arithmetic) :
    op = .add ∨ op = .sub ∨ op = .mul ∨ op = .div := by
  simpa [arithmetic] using h

theorem operator?_symbol {op : BinaryOp} (h : op ∈ arithmetic) :
    ∃ c, op.symbol.toList = [c] ∧ Formula.operator? c = some op ∧ isBlank c = false := by
  obtain rfl | rfl | rfl | rfl := arithmetic_cases h <;> exact ⟨_, rfl, rfl, by decide⟩

/-! ### Reading from the left -/

section Read

variable {bound : String → Bool}

theorem lastOperator?_eq_none {cs : List Char} (h : ∀ c ∈ cs, isNameChar c = true) :
    Formula.lastOperator? cs = none := by
  induction cs with
  | nil => rfl
  | cons c cs ih =>
    obtain ⟨hc, hcs⟩ := List.forall_mem_cons.mp h
    rw [Formula.lastOperator?, ih hcs, operator?_eq_none hc]
    rfl

/-- The last operator is the one that only an operand follows. -/
theorem lastOperator?_append {c : Char} {op : BinaryOp} (hc : Formula.operator? c = some op)
    {xs : List Char} (hxs : ∀ x ∈ xs, isNameChar x = true) (cs : List Char) :
    Formula.lastOperator? (cs ++ c :: xs) = some (cs, op, xs) := by
  induction cs with
  | nil =>
    rw [List.nil_append, Formula.lastOperator?, lastOperator?_eq_none hxs, hc]
    rfl
  | cons d cs ih => rw [List.cons_append, Formula.lastOperator?, ih]

theorem readDense_of_lastOperator? {cs before after : List Char} {op : BinaryOp}
    (h : Formula.lastOperator? cs = some (before, op, after)) :
    Formula.readDense bound cs =
      match Formula.readDense bound before with
      | .error e => .error e
      | .ok left => (Formula.readOperand bound after).map (.binary op left) := by
  rw [Formula.readDense]
  split
  next before' op' after' h' =>
    rw [h] at h'
    cases h'
    rfl
  next h' =>
    rw [h] at h'
    cases h'

theorem readDense_of_eq_none {cs : List Char} (h : Formula.lastOperator? cs = none) :
    Formula.readDense bound cs = Formula.readOperand bound cs := by
  rw [Formula.readDense]
  split
  next h' =>
    rw [h] at h'
    cases h'
  next => rfl

theorem readOperand_spell {x : Operand} (h : x.Valid bound) :
    Formula.readOperand bound x.spell = .ok x.formula := by
  cases x with
  | int digits =>
    obtain ⟨hne, hdigits, hlength⟩ := h
    have hrow : digits ≠ [] ∧ digits.all Formula.isDigit = true := ⟨hne, List.all_eq_true.mpr hdigits⟩
    have hvalue : ofDigits? (digits.map fun d => d.toNat - '0'.toNat) =
        some (Written.digitsValue digits) := by
      rw [ofDigits?, List.length_map, if_pos hlength, Written.digitsValue,
        filterMap_decimalDigit? hdigits]
    rw [Operand.spell, Formula.readOperand, if_pos hrow, hvalue]
    rfl
  | var name =>
    obtain ⟨hname, hbound⟩ := h
    have hrow : ¬(name.toList ≠ [] ∧ name.toList.all Formula.isDigit = true) := by
      rintro ⟨-, hall⟩
      obtain ⟨c, cs, hcs, hstart⟩ := Written.exists_cons_of_isName hname
      have hdigit := isDecimalDigit_of_isDigit (List.all_eq_true.mp hall c (hcs ▸ List.mem_cons_self))
      rw [Written.not_isDecimalDigit_of_isNameStart hstart] at hdigit
      cases hdigit
    rw [Operand.spell, Formula.readOperand, if_neg hrow, String.ofList_toList, if_pos hbound]
    rfl

/-- A formula without its spaces. -/
def dense (first : Operand) (links : List Link) : List Char :=
  first.spell ++ links.flatMap fun l => l.op.symbol.toList ++ l.operand.spell

theorem fromLeft_concat (first : Operand) (links : List Link) (l : Link) :
    fromLeft first (links ++ [l]) = .binary l.op (fromLeft first links) l.operand.formula := by
  rw [fromLeft, List.foldl_append]
  rfl

theorem readDense_dense {first : Operand} {links : List Link} (hfirst : first.Valid bound)
    (hlinks : ∀ l ∈ links, l.Valid bound) :
    Formula.readDense bound (dense first links) = .ok (fromLeft first links) := by
  induction links using List.reverseRecOn with
  | nil =>
    rw [dense, List.flatMap_nil, List.append_nil,
      readDense_of_eq_none (lastOperator?_eq_none fun c => hfirst.isNameChar_of_mem),
      readOperand_spell hfirst]
    rfl
  | append_singleton links l ih =>
    obtain ⟨hlinks, hl⟩ := List.forall_mem_append.mp hlinks
    have hl : l.Valid bound := hl l List.mem_cons_self
    obtain ⟨c, hsymbol, hop, -⟩ := operator?_symbol hl.op
    have hdense : dense first (links ++ [l]) = dense first links ++ c :: l.operand.spell := by
      simp [dense, hsymbol]
    have hlast := lastOperator?_append hop (fun x => hl.operand.isNameChar_of_mem) (dense first links)
    rw [hdense, readDense_of_lastOperator? hlast, ih hlinks, readOperand_spell hl.operand,
      fromLeft_concat]
    rfl

theorem removeBlanks_append (cs ds : List Char) :
    removeBlanks (cs ++ ds) = removeBlanks cs ++ removeBlanks ds :=
  List.filter_append ..

theorem removeBlanks_spell {first : Operand} {links : List Link} (hfirst : first.Valid bound)
    (hlinks : ∀ l ∈ links, l.Valid bound) : removeBlanks (spell first links) = dense first links := by
  have hoperand {x : Operand} (h : x.Valid bound) : removeBlanks x.spell = x.spell :=
    List.filter_eq_self.mpr fun c hc => by rw [isBlank_eq_false (h.isNameChar_of_mem hc), Bool.not_false]
  have hgap (space : Bool) : removeBlanks (gap space) = [] := by cases space <;> rfl
  have hlink {l : Link} (h : l.Valid bound) :
      removeBlanks l.spell = l.op.symbol.toList ++ l.operand.spell := by
    obtain ⟨c, hsymbol, -, hblank⟩ := operator?_symbol h.op
    have hop : removeBlanks [c] = [c] := by simp [removeBlanks, hblank]
    rw [Link.spell, removeBlanks_append, removeBlanks_append, removeBlanks_append, hgap, hgap,
      hoperand h.operand, hsymbol, hop]
    rfl
  rw [spell, spellLinks, dense, removeBlanks_append, hoperand hfirst, removeBlanks, List.filter_flatMap]
  exact congrArg _ (List.flatMap_congr fun l hl => hlink (hlinks l hl))

/-- As the inside of a placeholder, a formula is read from the left. -/
theorem read_spell {first : Operand} {links : List Link} (hfirst : first.Valid bound)
    (hlinks : ∀ l ∈ links, l.Valid bound) :
    Formula.read bound (spell first links) = .ok (fromLeft first links) := by
  rw [Formula.read, removeBlanks_spell hfirst hlinks, readDense_dense hfirst hlinks]

end Read

end Kestrel.Formulas
