import Kestrel.Proofs.Formulas.Order
import Kestrel.Proofs.Formulas.Text

/-!
# Formulas piece by piece

The reader for placeholders looks for the last operator, reads what stands before it in the same way, and
then the operand behind it. What comes of this can be said from the left: a text without its blanks is
cut at every operator, and each piece is an operand or none. If all of them are operands they are joined
from the left, and if not, the first one that is none is to blame.

* `cut` — the pieces of a text, with the operators between them;
* `Admissible`, `pieceNode`, `offence` — the pieces that are operands, the trees they stand for, and the
  failure of a piece that is none;
* `cut_of_lastOperator?` — the last operator of a text is the last one at which it is cut;
* `read_eq_fold_pieces` — what the reader makes of any text.
-/

namespace Kestrel.Formulas

open Text Template

/-! ### Pieces -/

/-- A text cut at every operator: the first piece, and the others, each with the operator before it. -/
def cut : List Char → List Char × List (BinaryOp × List Char)
  | [] => ([], [])
  | c :: cs =>
    match Formula.operator? c with
    | some op => ([], (op, (cut cs).1) :: (cut cs).2)
    | none => (c :: (cut cs).1, (cut cs).2)

/-- The piece is a numeral: there are digits, and nothing else. -/
def IsNumeral (piece : List Char) : Prop := piece ≠ [] ∧ piece.all Formula.isDigit

instance (piece : List Char) : Decidable (IsNumeral piece) :=
  inferInstanceAs (Decidable (piece ≠ [] ∧ piece.all Formula.isDigit = true))

/-- The piece is an operand: a numeral of at most `digitLimit` digits, or else a name that is bound. What
is a numeral is no name, even if it is bound. -/
def Admissible (bound : String → Bool) (piece : List Char) : Prop :=
  if IsNumeral piece then piece.length ≤ digitLimit else bound (String.ofList piece)

instance (bound : String → Bool) (piece : List Char) : Decidable (Admissible bound piece) :=
  inferInstanceAs
    (Decidable (if IsNumeral piece then piece.length ≤ digitLimit else bound (String.ofList piece) = true))

/-- The integer or the name that a piece stands for. -/
def pieceNode (piece : List Char) : Node :=
  if IsNumeral piece then .int (ofDigits (piece.map fun d => d.toNat - '0'.toNat))
  else .var (String.ofList piece)

/-- The failure of a piece that is no operand. -/
def offence (piece : List Char) : Failure :=
  if IsNumeral piece then .fault .tooManyDigits
  else .runtime (.undefinedVariable (String.ofList piece))

/-- All pieces, from the left. -/
def pieces (p : List Char × List (BinaryOp × List Char)) : List (List Char) := p.1 :: p.2.map (·.2)

/-- The tree of pieces that are operands, in which each operator is applied to all that stands before
it. -/
def piecesTree (p : List Char × List (BinaryOp × List Char)) : Node :=
  leftTree (pieceNode p.1) (p.2.map fun t => (t.1, pieceNode t.2))

/-! ### Cutting at the last operator -/

theorem cut_of_eq_none {cs : List Char} (h : Formula.lastOperator? cs = none) : cut cs = (cs, []) := by
  induction cs with
  | nil => rfl
  | cons c cs ih =>
    rw [Formula.lastOperator?] at h
    cases hlast : Formula.lastOperator? cs with
    | some t => simp [hlast] at h
    | none =>
      rw [hlast] at h
      have hc : Formula.operator? c = none := Option.map_eq_none_iff.mp h
      rw [cut, hc, ih hlast]

/-- The last operator of a text is the last one at which it is cut. -/
theorem cut_of_lastOperator? {cs before after : List Char} {op : BinaryOp}
    (h : Formula.lastOperator? cs = some (before, op, after)) :
    cut cs = ((cut before).1, (cut before).2 ++ [(op, after)]) := by
  induction cs generalizing before with
  | nil => cases h
  | cons c cs ih =>
    rw [Formula.lastOperator?] at h
    cases hlast : Formula.lastOperator? cs with
    | some t =>
      obtain ⟨front, op', back⟩ := t
      rw [hlast] at h
      cases h
      rw [cut, cut, ih hlast]
      cases Formula.operator? c <;> rfl
    | none =>
      rw [hlast] at h
      obtain ⟨op', hc, heq⟩ := Option.map_eq_some_iff.mp h
      cases heq
      simp only [cut, hc, cut_of_eq_none hlast, List.nil_append]

/-! ### Reading -/

section Read

variable {bound : String → Bool}

theorem admissible_of_isNumeral {piece : List Char} (h : IsNumeral piece) :
    Admissible bound piece ↔ piece.length ≤ digitLimit := by
  rw [Admissible, if_pos h]

theorem admissible_of_not_isNumeral {piece : List Char} (h : ¬IsNumeral piece) :
    Admissible bound piece ↔ bound (String.ofList piece) = true := by
  rw [Admissible, if_neg h]

theorem map_readOperand (piece : List Char) :
    (Formula.readOperand bound piece).map Formula.toNode =
      if Admissible bound piece then .ok (pieceNode piece) else .error (offence piece) := by
  rw [Formula.readOperand, pieceNode, offence]
  by_cases hnumeral : IsNumeral piece
  · have hrow : piece ≠ [] ∧ piece.all Formula.isDigit = true := hnumeral
    rw [if_pos hnumeral, if_pos hnumeral, if_pos hrow, ofDigits?, List.length_map,
      if_congr (admissible_of_isNumeral hnumeral) rfl rfl]
    by_cases hlength : piece.length ≤ digitLimit
    · rw [if_pos hlength, if_pos hlength]
      rfl
    · rw [if_neg hlength, if_neg hlength]
      rfl
  · have hrow : ¬(piece ≠ [] ∧ piece.all Formula.isDigit = true) := hnumeral
    rw [if_neg hnumeral, if_neg hnumeral, if_neg hrow,
      if_congr (admissible_of_not_isNumeral hnumeral) rfl rfl]
    split <;> rfl

/-- What comes of pieces: a tree if all of them are operands, and otherwise the failure of the first one
that is none. -/
def outcome (bound : String → Bool) (p : List Char × List (BinaryOp × List Char)) :
    Except Failure Node :=
  match (pieces p).find? fun piece => ¬Admissible bound piece with
  | some piece => .error (offence piece)
  | none => .ok (piecesTree p)

theorem outcome_single (piece : List Char) :
    outcome bound (piece, []) =
      if Admissible bound piece then .ok (pieceNode piece) else .error (offence piece) := by
  rw [outcome, pieces, List.map_nil, List.find?_singleton]
  by_cases h : Admissible bound piece <;> simp [h, piecesTree, leftTree]

/-- One more operator and one more piece. -/
theorem outcome_concat (first : List Char) (terms : List (BinaryOp × List Char)) (op : BinaryOp)
    (piece : List Char) :
    outcome bound (first, terms ++ [(op, piece)]) =
      match outcome bound (first, terms) with
      | .error e => .error e
      | .ok left =>
        if Admissible bound piece then .ok (.binary op left (pieceNode piece))
        else .error (offence piece) := by
  have hpieces : pieces (first, terms ++ [(op, piece)]) = pieces (first, terms) ++ [piece] := by
    simp [pieces]
  have htree : piecesTree (first, terms ++ [(op, piece)]) =
      .binary op (piecesTree (first, terms)) (pieceNode piece) := by
    rw [piecesTree, List.map_append]
    exact leftTree_concat _ _ _
  rw [outcome, outcome, hpieces, htree, List.find?_append]
  cases (pieces (first, terms)).find? fun piece => ¬Admissible bound piece with
  | some piece => rfl
  | none => by_cases h : Admissible bound piece <;> simp [h]

/-- The reader, which works from the last operator, finds what comes of the pieces from the left. -/
theorem map_readDense (cs : List Char) :
    (Formula.readDense bound cs).map Formula.toNode = outcome bound (cut cs) := by
  -- what stands before the last operator is shorter, and the last piece is the one behind it
  cases hlast : Formula.lastOperator? cs with
  | none => rw [readDense_of_eq_none hlast, map_readOperand, cut_of_eq_none hlast, outcome_single]
  | some t =>
    obtain ⟨before, op, after⟩ := t
    have hlt : before.length < cs.length := Formula.length_lt_of_lastOperator? hlast
    rw [readDense_of_lastOperator? hlast, cut_of_lastOperator? hlast, outcome_concat,
      ← map_readDense before]
    cases Formula.readDense bound before with
    | error e => rfl
    | ok left =>
      have hmap : ((Formula.readOperand bound after).map (.binary op left)).map Formula.toNode =
          ((Formula.readOperand bound after).map Formula.toNode).map (.binary op left.toNode) := by
        cases Formula.readOperand bound after <;> rfl
      show ((Formula.readOperand bound after).map (.binary op left)).map Formula.toNode = _
      rw [hmap, map_readOperand]
      split <;> rfl
termination_by cs.length

end Read

/-- The reader for placeholders is a fold from the left. Without its blanks, and cut at every operator, a
text is read as the tree in which each operator is applied to all that stands before it, provided that each
piece is a numeral of admissible length or a name bound in the scope. Otherwise it is refused for the first
piece that is neither: with the failure for long numerals if it consists of digits, and as an unbound name
if it does not, also where it is empty. -/
theorem read_eq_fold_pieces (s : Store) (scope : ScopeId) (inner : List Char) :
    (Formula.read (s.contains scope) inner).map Formula.toNode =
      match (pieces (cut (removeBlanks inner))).find? fun piece =>
          ¬Admissible (s.contains scope) piece with
      | some piece => .error (offence piece)
      | none => .ok (piecesTree (cut (removeBlanks inner))) :=
  map_readDense (removeBlanks inner)

/-- There is an empty piece in front of a sign. -/
example : cut (removeBlanks "-a +12 / b".toList) =
    ([], [(.sub, ['a']), (.add, ['1', '2']), (.div, ['b'])]) := by
  decide +kernel

end Kestrel.Formulas
