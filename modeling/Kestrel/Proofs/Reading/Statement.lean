import Kestrel.Proofs.Reading.Chain
import Kestrel.Reader.Statement

/-!
# Reading statements

What each form of statement reads, given what the expressions and statements in it read. As with
operands, each form has a test for its first token (`guarded_statementForms`). The last form, an
assignment or an expression, has no sign of its own, so its test is that of an expression.
-/

namespace Kestrel.Written

open Reader

variable {expression block statement : Rule Node} {bound : Nat}

/-! ### Statements -/

theorem reads_block {statement : Rule Node} {ts us : List Token} {ns : List Node}
    (h : Reads (Rule.many statement bound) ts ns (.sign .closeBrace :: us)) :
    Reads (Reader.block statement bound) (.sign .openBrace :: ts) (.block ns) us := by
  refine Reads.bind (reads_symbol (s := .openBrace) rfl ts) (h.bind ?_)
  exact Reads.bind (reads_symbol (s := .closeBrace) rfl us) (Reads.pure _ us)

theorem guarded_block (statement : Rule Node) (bound : Nat) :
    Guarded (Reader.block statement bound) (· = .sign .openBrace) := by
  intro ts h
  refine Refuses.bind (refuses_symbol (s := .openBrace) rfl fun ht => ?_) _
  simpa using h _ ht

theorem reads_declaration {x : String} {ts us vs : List Token} {params : List String} {body : Node}
    (hparams : Reads (commaList identifier bound) ts params (.sign .closeParen :: us))
    (hbody : Reads block us body vs) :
    Reads (declaration block bound)
      (.keyword .function :: .name x :: .sign .openParen :: ts) (.declare x params body) vs := by
  refine (reads_keyword .function _).bind ((reads_identifier x _).bind ?_)
  refine Reads.bind (reads_symbol (s := .openParen) rfl ts) (hparams.bind ?_)
  refine Reads.bind (reads_symbol (s := .closeParen) rfl us) (hbody.bind ?_)
  exact Reads.pure _ vs

theorem reads_loop {x : String} {ts us vs ws : List Token} {first last body : Node}
    (hfirst : Reads expression ts first (.sign .range :: us))
    (hlast : Reads expression us last (.sign .closeParen :: vs)) (hbody : Reads block vs body ws) :
    Reads (loop expression block)
      (.keyword .for :: .sign .openParen :: .name x :: .keyword .in :: ts)
      (.forLoop x first last body) ws := by
  refine (reads_keyword .for _).bind ?_
  refine Reads.bind (reads_symbol (s := .openParen) rfl _) ((reads_identifier x _).bind ?_)
  refine (reads_keyword .in _).bind (hfirst.bind ?_)
  refine Reads.bind (reads_symbol (s := .range) rfl us) (hlast.bind ?_)
  refine Reads.bind (reads_symbol (s := .closeParen) rfl vs) (hbody.bind ?_)
  exact Reads.pure _ ws

/-- What follows the first branch of a condition. -/
def elsePart (expression block : Rule Node) (bound : Nat) : Rule (Option Node) :=
  Rule.optional do
    keyword .else
    Rule.orElse (conditional expression block bound) block

theorem reads_elsePart_none {ts : List Token} (h : ts.head? ≠ some (.keyword .else)) :
    Reads (elsePart expression block bound) ts none ts :=
  ((refuses_keyword h).bind _).optional

theorem reads_elsePart_if {ts us : List Token} {n : Node}
    (h : Reads (conditional expression block bound) ts n us) :
    Reads (elsePart expression block bound) (.keyword .else :: ts) (some n) us :=
  Reads.optional ((reads_keyword .else ts).bind (h.orElse _))

theorem guarded_conditional (expression block : Rule Node) (bound : Nat) :
    Guarded (conditional expression block (bound + 1)) (· = .keyword .if) :=
  guarded_keyword_bind .if _

theorem reads_elsePart_block {ts us : List Token} {n : Node}
    (hif : ts.head? ≠ some (.keyword .if)) (h : Reads block ts n us) :
    Reads (elsePart expression block (bound + 1)) (.keyword .else :: ts) (some n) us := by
  have hrefuses : Refuses (conditional expression block (bound + 1)) ts :=
    guarded_conditional expression block bound ts fun t ht => by
      simp only [decide_eq_false_iff_not]
      rintro rfl
      exact hif ht
  exact Reads.optional ((reads_keyword .else ts).bind (hrefuses.orElse_reads h))

theorem reads_conditional {ts us vs ws : List Token} {c yes : Node} {other : Option Node}
    (hc : Reads expression ts c (.sign .closeParen :: us)) (hyes : Reads block us yes vs)
    (hother : Reads (elsePart expression block bound) vs other ws) :
    Reads (conditional expression block (bound + 1)) (.keyword .if :: .sign .openParen :: ts)
      (ifNode c yes other) ws := by
  refine (reads_keyword .if _).bind ?_
  refine Reads.bind (reads_symbol (s := .openParen) rfl ts) (hc.bind ?_)
  refine Reads.bind (reads_symbol (s := .closeParen) rfl us) (hyes.bind ?_)
  exact hother.bind (Reads.pure _ ws)

theorem reads_assignment {x : String} {ts us : List Token} {e : Node}
    (h : Reads expression ts e us) :
    Reads (assignment expression) (.name x :: .sign .assign :: ts) (.assign x e) us := by
  refine (refuses_keyword (by simp)).optional.bind ((reads_identifier x _).bind ?_)
  exact (reads_assignSign ts).bind (h.bind (Reads.pure _ us))

/-- What does not start with a name and the sign of an assignment is none. -/
theorem refuses_assignment {ts : List Token} (hlet : ts.head? ≠ some (.keyword .let))
    (h : ∀ x us, ts = .name x :: us → us.head? ≠ some (.sign .assign)) :
    Refuses (assignment expression) ts := by
  refine (refuses_keyword hlet).optional.bind_refuses ?_
  by_cases hname : ∃ x us, ts = .name x :: us
  · obtain ⟨x, us, rfl⟩ := hname
    exact (reads_identifier x us).bind_refuses ((refuses_assignSign (h x us rfl)).bind _)
  · refine (refuses_identifier fun x hx => hname ?_).bind _
    cases ts with
    | nil => cases hx
    | cons t us => exact ⟨x, us, by rw [Option.some.inj hx]⟩

theorem reads_semicolon (us : List Token) : Reads semicolon (.sign .semicolon :: us) () us :=
  (Reads.optional (reads_symbol (s := .semicolon) rfl us)).bind (Reads.pure () us)

theorem reads_simple_assignment {ts us vs : List Token} {n : Node}
    (h : Reads (assignment expression) ts n us) (hend : Reads semicolon us () vs) :
    Reads (simple expression) ts n vs :=
  (h.orElse _).bind (hend.bind (Reads.pure n vs))

theorem reads_simple_expression {ts us vs : List Token} {n : Node}
    (hassign : Refuses (assignment expression) ts) (h : Reads expression ts n us)
    (hend : Reads semicolon us () vs) : Reads (simple expression) ts n vs :=
  (hassign.orElse_reads h).bind (hend.bind (Reads.pure n vs))

/-! ### Choosing the form -/

theorem guarded_expressionAt (bound : Nat) : Guarded (expressionAt (bound + 1)) startsExpression := by
  intro ts h
  refine refuses_expressionAt (fun t ht => ?_) (fun t ht => ?_) fun ht => ?_
  · have hstart := h t ht
    simp only [startsExpression, Bool.or_eq_false_iff] at hstart
    exact Option.isNone_iff_eq_none.mp (Option.isSome_eq_false_iff.mp hstart.1.1)
  · have hstart := h t ht
    simp only [startsExpression, Bool.or_eq_false_iff] at hstart
    exact hstart.1.2
  · exact absurd (h _ ht) (by decide)

/-- An assignment or an expression starts with one of these tokens. -/
def startsSimple (t : Token) : Bool :=
  t = .keyword .let || startsExpression t

theorem guarded_simple (bound : Nat) :
    Guarded (simple (expressionAt (bound + 1))) startsSimple := by
  intro ts h
  have hexpression : Refuses (expressionAt (bound + 1)) ts :=
    guarded_expressionAt bound ts fun t ht => (Bool.or_eq_false_iff.mp (h t ht)).2
  refine ((refuses_assignment (fun ht => ?_) ?_).orElse hexpression).bind _
  · exact absurd (h _ ht) (by decide)
  · rintro x us rfl
    exact absurd (h _ rfl) (by simp [startsSimple, startsExpression, startsOperand, operandTests, Token.name?])

/-- What the first token must be for each form of statement. -/
def statementTests : List (Token → Bool) := [
  (· = .keyword .function),
  (· = .keyword .for),
  (· = .keyword .if),
  (· = .sign .openBrace),
  startsSimple]

theorem guarded_statementForms (statement : Rule Node) (bound : Nat) :
    List.Forall₂ Guarded
      (statementForms (expressionAt (bound + 1)) (Reader.block statement (bound + 1)) (bound + 1))
      statementTests := by
  unfold statementForms statementTests
  refine .cons (guarded_keyword_bind _ _) (.cons (guarded_keyword_bind _ _) ?_)
  refine .cons (guarded_conditional _ _ _) (.cons (guarded_block _ _) ?_)
  exact .cons (guarded_simple bound) .nil

/-- A statement starts with a token that passes some test. -/
def startsStatement (t : Token) : Bool :=
  statementTests.any (· t)

theorem refuses_statementAt {ts : List Token}
    (h : ∀ t, ts.head? = some t → startsStatement t = false) : Refuses (statementAt (bound + 1)) ts := by
  refine refuses_oneOf (guarded_statementForms (statementAt bound) bound) fun test htest t ht => ?_
  simpa using List.any_eq_false.mp (h t ht) test htest

/-- Passing over the first `n` forms of statement. -/
theorem reads_statementAt_drop (n : Nat) {ts us : List Token} {e : Node}
    (htests : ∀ t, ts.head? = some t → (statementTests.take n).all (fun test => !test t) = true)
    (h : Reads (Rule.oneOf ((statementForms (expressionAt (bound + 1))
      (Reader.block (statementAt bound) (bound + 1)) (bound + 1)).drop n)) ts e us) :
    Reads (statementAt (bound + 1)) ts e us := by
  refine reads_oneOf_drop (guarded_statementForms (statementAt bound) bound) n
    (fun test htest t ht => ?_) h
  simpa using List.all_eq_true.mp (htests t ht) test htest

end Kestrel.Written
