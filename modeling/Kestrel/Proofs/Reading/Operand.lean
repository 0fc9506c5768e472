import Kestrel.Proofs.Reading.Basic
import Kestrel.Reader.Expression

/-!
# Reading operands

What lists and each form of operand read, given what the expressions in them read. The forms are tried
in order, so for each there is a test that the first token must pass (`guarded_operandForms`), and a
form is reached where the token passes none of the tests before it.
-/

namespace Kestrel.Written

open Reader

variable {α : Type} {expression : Rule Node} {bound : Nat}

/-! ### Lists -/

theorem reads_commaTail_nil {element : Rule α} {ts : List Token}
    (h : ts.head? ≠ some (.sign .comma)) : Reads (commaTail element (bound + 1)) ts [] ts :=
  ((refuses_symbol rfl h).bind _).many bound

theorem reads_commaTail_cons {element : Rule α} {ts us vs : List Token} {a : α} {as : List α}
    (ha : Reads element ts a us) (has : Reads (commaTail element bound) us as vs) :
    Reads (commaTail element (bound + 1)) (.sign .comma :: ts) (a :: as) vs :=
  Reads.many ((reads_symbol rfl ts).bind ha) has

theorem reads_commaList_nil {element : Rule α} {ts : List Token} (h : Refuses element ts) :
    Reads (commaList element bound) ts [] ts :=
  (h.bind _).orElse_reads (Reads.pure [] ts)

theorem reads_commaList_cons {element : Rule α} {ts us vs : List Token} {a : α} {as : List α}
    (ha : Reads element ts a us) (has : Reads (commaTail element bound) us as vs) :
    Reads (commaList element bound) ts (a :: as) vs := by
  exact Reads.orElse (ha.bind (has.map fun as => a :: as)) _

/-! ### Operands -/

/-- What the first token must be for each form of operand. -/
def operandTests : List (Token → Bool) := [
  fun t => t.int?.isSome,
  fun t => t.string?.isSome,
  (· = .keyword .true),
  (· = .keyword .false),
  (· = .keyword .none),
  (· = .keyword .print),
  (· = .keyword .readFile),
  (· = .keyword .split),
  fun t => t.name?.isSome,
  fun t => t.name?.isSome]

theorem guarded_keyword_bind (k : Keyword) (f : Unit → Rule α) :
    Guarded (keyword k >>= f) (· = .keyword k) := by
  intro ts h
  refine Refuses.bind (refuses_keyword fun hk => ?_) f
  simpa using h _ hk

theorem guarded_operandForms (expression : Rule Node) (bound : Nat) :
    List.Forall₂ Guarded (operandForms expression bound) operandTests := by
  unfold operandForms operandTests
  refine .cons (takes_integer.guarded_bind _) (.cons (takes_string.guarded_bind _) ?_)
  refine .cons (guarded_keyword_bind _ _) (.cons (guarded_keyword_bind _ _) ?_)
  refine .cons (guarded_keyword_bind _ _) (.cons (guarded_keyword_bind _ _) ?_)
  refine .cons (guarded_keyword_bind _ _) (.cons (guarded_keyword_bind _ _) ?_)
  exact .cons (takes_identifier.guarded_bind _) (.cons (takes_identifier.guarded_bind _) .nil)

/-- An operand starts with a token that passes some test. -/
def startsOperand (t : Token) : Bool :=
  operandTests.any (· t)

/-- An expression starts with one of these tokens. -/
def startsExpression (t : Token) : Bool :=
  t.unary?.isSome || startsOperand t || t = .sign .openParen

theorem refuses_operand (expression : Rule Node) (bound : Nat) {ts : List Token}
    (h : ∀ t, ts.head? = some t → startsOperand t = false) :
    Refuses (operand expression bound) ts := by
  refine refuses_oneOf (guarded_operandForms expression bound) fun test htest t ht => ?_
  simpa using List.any_eq_false.mp (h t ht) test htest

/-- Passing over the first `n` forms of operand. -/
theorem reads_operand_drop (n : Nat) {t : Token} {ts us : List Token} {e : Node}
    (htests : (operandTests.take n).all (fun test => !test t) = true)
    (h : Reads (Rule.oneOf ((operandForms expression bound).drop n)) (t :: ts) e us) :
    Reads (operand expression bound) (t :: ts) e us := by
  refine reads_oneOf_drop (guarded_operandForms expression bound) n (fun test htest u hu => ?_) h
  obtain rfl : t = u := Option.some.inj hu
  simpa using List.all_eq_true.mp htests test htest

theorem reads_operand_int (ds : List Char) (us : List Token) :
    Reads (operand expression bound) (.int ds :: us) (.int (digitsValue ds)) us :=
  ((reads_integer ds us).map fun n => Node.int n).orElse _

theorem reads_operand_string (raw : List Char) (us : List Token) :
    Reads (operand expression bound) (.string raw :: us) (stringNode (unescapeFrom 0 raw)) us :=
  reads_operand_drop 1 rfl (((reads_string raw us).map stringNode).orElse _)

theorem reads_operand_true (us : List Token) :
    Reads (operand expression bound) (.keyword .true :: us) (.bool true) us :=
  reads_operand_drop 2 rfl (((reads_keyword .true us).map fun _ => Node.bool true).orElse _)

theorem reads_operand_false (us : List Token) :
    Reads (operand expression bound) (.keyword .false :: us) (.bool false) us :=
  reads_operand_drop 3 rfl (((reads_keyword .false us).map fun _ => Node.bool false).orElse _)

theorem reads_operand_none (us : List Token) :
    Reads (operand expression bound) (.keyword .none :: us) .none us :=
  reads_operand_drop 4 rfl (((reads_keyword .none us).map fun _ => Node.none).orElse _)

/-- What stands between parentheses behind a keyword. -/
theorem reads_parenthesized {ts us : List Token} {e : Node} (k : Keyword) (f : Node → Node)
    (h : Reads expression ts e (.sign .closeParen :: us)) :
    Reads (do keyword k; symbol "("; let e ← expression; symbol ")"; pure (f e))
      (.keyword k :: .sign .openParen :: ts) (f e) us := by
  refine (reads_keyword k _).bind ?_
  refine Reads.bind (reads_symbol (s := .openParen) rfl ts) (h.bind ?_)
  exact Reads.bind (reads_symbol (s := .closeParen) rfl us) (Reads.pure (f e) us)

theorem reads_operand_print {ts us : List Token} {e : Node}
    (h : Reads expression ts e (.sign .closeParen :: us)) :
    Reads (operand expression bound) (.keyword .print :: .sign .openParen :: ts) (.print e) us :=
  reads_operand_drop 5 rfl (Reads.orElse (reads_parenthesized .print Node.print h) _)

theorem reads_operand_read {ts us : List Token} {e : Node}
    (h : Reads expression ts e (.sign .closeParen :: us)) :
    Reads (operand expression bound) (.keyword .readFile :: .sign .openParen :: ts) (.read e) us :=
  reads_operand_drop 6 rfl (Reads.orElse (reads_parenthesized .readFile Node.read h) _)

theorem reads_operand_split {ts us vs : List Token} {s d : Node}
    (hs : Reads expression ts s (.sign .comma :: us))
    (hd : Reads expression us d (.sign .closeParen :: vs)) :
    Reads (operand expression bound) (.keyword .split :: .sign .openParen :: ts) (.split s d) vs := by
  refine reads_operand_drop 7 rfl (Reads.orElse ?_ _)
  refine (reads_keyword .split _).bind ?_
  refine Reads.bind (reads_symbol (s := .openParen) rfl ts) (hs.bind ?_)
  refine Reads.bind (reads_symbol (s := .comma) rfl us) (hd.bind ?_)
  exact Reads.bind (reads_symbol (s := .closeParen) rfl vs) (Reads.pure _ vs)

theorem reads_operand_call {x : String} {ts us : List Token} {args : List Node}
    (h : Reads (commaList expression bound) ts args (.sign .closeParen :: us)) :
    Reads (operand expression bound) (.name x :: .sign .openParen :: ts) (.call x args) us := by
  refine reads_operand_drop 8 rfl (Reads.orElse ?_ _)
  refine (reads_identifier x _).bind ?_
  refine Reads.bind (reads_symbol (s := .openParen) rfl ts) (h.bind ?_)
  exact Reads.bind (reads_symbol (s := .closeParen) rfl us) (Reads.pure _ us)

/-- A name that no parenthesis follows is no call. -/
theorem reads_operand_var {x : String} {us : List Token}
    (h : us.head? ≠ some (.sign .openParen)) :
    Reads (operand expression bound) (.name x :: us) (.var x) us := by
  refine reads_operand_drop 8 rfl (Refuses.orElse_reads ?_ (Reads.orElse ?_ _))
  · exact (reads_identifier x us).bind_refuses ((refuses_symbol (s := .openParen) rfl h).bind _)
  · exact (reads_identifier x us).bind (Reads.pure _ us)

end Kestrel.Written
