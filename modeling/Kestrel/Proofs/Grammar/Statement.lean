import Kestrel.Proofs.Grammar.Expression
import Kestrel.Proofs.Reading.Statement

/-!
# Statements and the grammar

Statements are what the grammar says (`parses_statementAt`), with more statements behind them up to
the end of a block or of the text (`Rest`). No sign has to stand between two statements, so an
expression may go on with what the grammar could also read as the next statement; `Rest` holds of the
tokens behind either of them, and this is all that is needed (`ends_afterSimple`).
-/

namespace Kestrel.Written

open Reader

/-! ### What may follow a statement -/

/-- A block or the text ends here. -/
def Closes (g : List Token → Prop) : Prop :=
  ∀ ts, g ts → ∀ t, ts.head? = some t → t = .sign .closeBrace

/-- More statements, and then the end of the block or of the text. -/
def Rest (g : List Token → Prop) : List Token → Prop :=
  Followed (Derives [Phrase.program]) g

/-- A semicolon, or nothing. -/
def IsSemicolon (ts : List Token) : Prop :=
  Derives [Sign.semicolon] ts ∨ Derives [] ts

/-- What may follow an assignment or an expression. -/
def AfterSimple (g : List Token → Prop) : List Token → Prop :=
  Followed IsSemicolon (Rest g)

section Heads

variable {g f : List Token → Prop} {t : Token} {ts us : List Token}

theorem Rest.cases (h : Rest g ts) : g ts ∨ Followed (Derives [Phrase.statement]) (Rest g) ts := by
  obtain ⟨β, hβ, h⟩ := h.exists_rule
  simp only [rules, List.mem_cons, List.not_mem_nil, or_false] at hβ
  rcases hβ with rfl | rfl
  · exact .inl (followed_nil_iff.mp h)
  · exact .inr (followed_phrase_iff.mp h)

theorem AfterSimple.cases (h : AfterSimple g ts) :
    Followed (Derives [Sign.semicolon]) (Rest g) ts ∨ Rest g ts :=
  (followed_or.mp h).imp_right followed_nil_iff.mp

theorem exists_head_of_followed_expr (h : Followed (Derives [Phrase.expr]) f ts) :
    ∃ t us, ts = t :: us ∧ startsExpression t = true := by
  obtain ⟨vs, ws, rfl, hvs, -⟩ := h
  obtain ⟨t, vs, rfl, ht⟩ := exists_head_of_derives_expr hvs
  exact ⟨t, vs ++ ws, rfl, ht⟩

theorem exists_head_of_followed_simple (h : Followed (Derives [Phrase.simple]) f ts) :
    ∃ t us, ts = t :: us ∧ startsSimple t = true := by
  obtain ⟨β, hβ, h⟩ := h.exists_rule
  simp only [rules, List.mem_cons, List.not_mem_nil, or_false] at hβ
  rcases hβ with rfl | rfl | rfl
  · obtain ⟨t, us, rfl, ht, -⟩ := followed_token_iff.mp h
    exact ⟨t, us, rfl, Token.terminal_eq_keyword.mp ht ▸ rfl⟩
  · obtain ⟨t, us, rfl, ht, -⟩ := followed_token_iff.mp h
    exact ⟨t, us, rfl, by cases t <;> cases ht; rfl⟩
  · obtain ⟨t, us, rfl, ht⟩ := exists_head_of_followed_expr h
    exact ⟨t, us, rfl, by rw [startsSimple, ht, Bool.or_true]⟩

/-- A statement is marked by its first token, or it is an assignment or an expression. -/
theorem Followed.statement_cases (h : Followed (Derives [Phrase.statement]) f ts) :
    (∃ t us, ts = t :: us ∧ (statementTests.take 4).any (· t) = true ∧ t.stops = true) ∨
      Followed (Derives [Phrase.simple]) (Followed IsSemicolon f) ts := by
  have hmarked {a : Terminal} {γ : List Symbol} {f : List Token → Prop} {ts : List Token}
      (ha : ∀ t : Token, t.terminal = a →
        (statementTests.take 4).any (· t) = true ∧ t.stops = true)
      (h : Followed (Derives (.token a :: γ)) f ts) :
      ∃ t us, ts = t :: us ∧ (statementTests.take 4).any (· t) = true ∧ t.stops = true := by
    obtain ⟨t, us, rfl, ht, -⟩ := followed_token_iff.mp h
    exact ⟨t, us, rfl, ha t ht⟩
  obtain ⟨β, hβ, h⟩ := h.exists_rule
  simp only [rules, List.mem_cons, List.not_mem_nil, or_false] at hβ
  rcases hβ with rfl | rfl | rfl | rfl | rfl | rfl
  · obtain ⟨β, hβ, h⟩ := h.exists_rule
    obtain rfl := List.mem_singleton.mp hβ
    exact .inl (hmarked (fun t ht => Token.terminal_eq_keyword.mp ht ▸ ⟨rfl, rfl⟩) h)
  · obtain ⟨β, hβ, h⟩ := h.exists_rule
    obtain rfl := List.mem_singleton.mp hβ
    exact .inl (hmarked (fun t ht => Token.terminal_eq_keyword.mp ht ▸ ⟨rfl, rfl⟩) h)
  · obtain ⟨β, hβ, h⟩ := h.exists_rule
    obtain rfl := List.mem_singleton.mp hβ
    exact .inl (hmarked (fun t ht => Token.terminal_eq_keyword.mp ht ▸ ⟨rfl, rfl⟩) h)
  · obtain ⟨β, hβ, h⟩ := h.exists_rule
    obtain rfl := List.mem_singleton.mp hβ
    exact .inl (hmarked (fun t ht => Token.terminal_eq_sign.mp ht ▸ ⟨rfl, rfl⟩) h)
  · exact .inr (h.mono fun us hus => followed_or.mpr (.inr (followed_nil_iff.mpr hus)))
  · exact .inr ((followed_phrase_iff.mp h).mono fun us hus => followed_or.mpr (.inl hus))

theorem exists_head_of_followed_statement (h : Followed (Derives [Phrase.statement]) f ts) :
    ∃ t us, ts = t :: us ∧ startsStatement t = true := by
  rcases h.statement_cases with ⟨t, us, rfl, ht, -⟩ | h
  · refine ⟨t, us, rfl, ?_⟩
    rw [startsStatement, ← List.take_append_drop 4 statementTests, List.any_append, ht]
    rfl
  · obtain ⟨t, us, rfl, ht⟩ := exists_head_of_followed_simple h
    exact ⟨t, us, rfl, by simp [startsStatement, statementTests, ht]⟩

/-- The first token of what follows a statement. -/
theorem Rest.head (hg : Closes g) (h : Rest g (t :: us)) :
    t = .sign .closeBrace ∨ startsStatement t = true := by
  rcases h.cases with hend | hmore
  · exact .inl (hg _ hend t rfl)
  · obtain ⟨t', us', heq, ht'⟩ := exists_head_of_followed_statement hmore
    obtain ⟨rfl, -⟩ := List.cons.inj heq
    exact .inr ht'

/-- An expression ends in front of the next statement, or the next statement is an expression too. -/
theorem ends_afterSimple (hg : Closes g) : Ends (AfterSimple g) := by
  intro ts h
  rcases h.cases with h | h
  · exact .inl (stops_of_followed (fun _ ht => Token.terminal_eq_sign.mp ht ▸ rfl) h)
  rcases h.cases with hend | h
  · refine .inl fun t ht => ?_
    rw [hg ts hend t ht]
    rfl
  rcases h.statement_cases with ⟨t, us, rfl, -, hstops⟩ | h
  · exact .inl (stops_cons hstops us)
  obtain ⟨β, hβ, h⟩ := h.exists_rule
  simp only [rules, List.mem_cons, List.not_mem_nil, or_false] at hβ
  rcases hβ with rfl | rfl | rfl
  · exact .inl (stops_of_followed (fun _ ht => Token.terminal_eq_keyword.mp ht ▸ rfl) h)
  · exact .inl (stops_of_followed (fun t ht => by cases t <;> cases ht; rfl) h)
  · obtain ⟨us, vs, rfl, hus, hvs⟩ := h
    exact .inr ⟨us, vs, rfl, completes_of_derives hus, hvs⟩

end Heads

/-! ### Assignments and expressions -/

section Simple

variable {n : Nat} {expression : Rule Node} {g : List Token → Prop}

/-- An assignment with or without its keyword. -/
def IsAssignment : List Token → Prop :=
  Followed (fun ts => Derives [Keyword.let] ts ∨ Derives [] ts)
    (Derives [.token .name, Sign.assign, Phrase.expr])

theorem parses_assignment (hexpr : ParsesExpr n expression) {f : List Token → Prop} (hf : Ends f) :
    Parses n (assignment expression) IsAssignment f := by
  refine Parses.andThen (Parses.optional (scans_keyword .let).parses fun us vs hus hrest => ?_) fun _ => ?_
  · obtain ⟨t, us, rfl, ht, -⟩ := derives_token_iff.mp hus
    obtain ⟨ht', -⟩ := followed_cons_iff.mp hrest
    rw [ht] at ht'
    cases ht'
  · refine Parses.token scans_identifier fun x => Parses.token scans_assignSign fun _ => ?_
    exact (hexpr f hf).map

/-- Behind a name as an operand stands what follows the operand, or a parenthesis. -/
theorem Followed.of_name {f : List Token → Prop} {t : Token} {us : List Token}
    (ht : t.terminal = .name) (h : Followed IsOperand f (t :: us)) :
    f us ∨ us.head? = some (.sign .openParen) := by
  obtain ⟨xs, ys, hsplit, ⟨β, hβ, hxs⟩, hys⟩ := h
  obtain ⟨a, δ, rfl, -⟩ := exists_head_of_mem_operandRules hβ
  obtain ⟨ht', hδ⟩ := followed_cons_iff.mp ⟨xs, ys, hsplit, hxs, hys⟩
  obtain rfl : Terminal.name = a := ht.symm.trans ht'
  have hrules : δ = [(Sign.openParen : Symbol), Phrase.args, Sign.closeParen] ∨ δ = [] := by
    simpa [operandRules] using hβ
  rcases hrules with rfl | rfl
  · obtain ⟨u, us', rfl, hu, -⟩ := followed_token_iff.mp hδ
    exact .inr (by rw [Token.terminal_eq_sign.mp hu]; rfl)
  · exact .inl (followed_nil_iff.mp hδ)

/-- An assignment is no expression, with whatever behind it. -/
theorem not_followed_of_isAssignment (hg : Closes g) {us vs : List Token} (h : IsAssignment us) :
    ¬Followed (Derives [Phrase.expr]) (AfterSimple g) (us ++ vs) := by
  intro hexpr
  obtain ⟨us, us', rfl, hlet | hlet, hus'⟩ := h
  · obtain ⟨t, us, rfl, ht, -⟩ := derives_token_iff.mp hlet
    rw [Token.terminal_eq_keyword] at ht
    subst ht
    obtain ⟨t, us', heq, hstart⟩ := exists_head_of_followed_expr hexpr
    obtain ⟨rfl, -⟩ := List.cons.inj heq
    exact absurd hstart (by decide)
  · obtain rfl := derives_nil_iff.mp hlet
    obtain ⟨t, us, rfl, ht, hus⟩ := derives_token_iff.mp hus'
    obtain ⟨t', us, rfl, ht', -⟩ := derives_token_iff.mp hus
    rw [Token.terminal_eq_sign] at ht'
    subst ht'
    obtain ⟨xs, ys, hsplit, hxs, hys⟩ := hexpr
    have hcompletes : Followed (Completes .operand []) (AfterSimple g)
        (t :: .sign .assign :: (us ++ vs)) := ⟨xs, ys, hsplit, completes_of_derives hxs, hys⟩
    -- behind the name stands the sign of an assignment, with which nothing goes on
    rcases hcompletes.operand_cons with ⟨op, rfl, -⟩ | hoperand | ⟨rfl, -⟩
    · cases ht
    · rcases hoperand.of_name ht with hrest | hparen
      · rcases hrest.operator_cons with ⟨-, hend⟩ | ⟨op, heq, -⟩ | ⟨heq, -⟩ | ⟨b, τ, hτ, -, -⟩
        · rcases hend.cases with hsemicolon | hmore
          · obtain ⟨ht', -⟩ := followed_cons_iff.mp hsemicolon
            cases ht'
          · exact absurd (hmore.head hg) (by decide)
        · cases heq
        · cases heq
        · cases hτ
      · cases hparen
    · cases ht

theorem parses_semicolon (hg : Closes g) : Parses n semicolon IsSemicolon (Rest g) := by
  refine (Parses.optional (scans_symbol (s := .semicolon) rfl).parses fun us vs hus hrest => ?_).map
  obtain ⟨t, us, rfl, ht, -⟩ := derives_token_iff.mp hus
  rw [Token.terminal_eq_sign] at ht
  subst ht
  exact absurd (Rest.head hg hrest) (by decide)

/-- An assignment or an expression, with the semicolon behind it. -/
theorem parses_simple (hexpr : ParsesExpr n expression) (hg : Closes g) :
    Parses n (simple expression) (Followed (Derives [Phrase.simple]) IsSemicolon) (Rest g) := by
  have hends : Ends (AfterSimple g) := ends_afterSimple hg
  have hsimple : Parses n (Rule.orElse (assignment expression) expression)
      (Derives [Phrase.simple]) (AfterSimple g) := by
    refine (Parses.orElse (parses_assignment hexpr hends) (hexpr _ hends) fun us vs hus h =>
      absurd h (not_followed_of_isAssignment hg hus)).congr fun us => ?_
    rw [IsAssignment, followed_or, ← derives_append_eq, followed_nil_iff,
      derives_rule_iff (x := .simple)]
    simp [rules, or_assoc]
  exact Parses.andThen hsimple fun e => (parses_semicolon hg).map

end Simple

/-! ### Statements with blocks -/

section Marked

variable {n bound : Nat} {expression block statement : Rule Node} {f g : List Token → Prop}

theorem parses_block (hprogram : ∀ n' < n, Parses n' (Rule.many statement bound)
      (Derives [Phrase.program]) (Followed (Derives [Sign.closeBrace]) f)) :
    Parses n (Reader.block statement bound) (Derives [Sign.openBrace, Phrase.program, Sign.closeBrace])
      f := by
  refine Parses.token_of_lt (scans_symbol (s := .openBrace) rfl) fun n' hn _ => ?_
  refine Parses.bind (hprogram n' hn) fun ns => ?_
  exact Parses.token (scans_symbol (s := .closeBrace) rfl) fun _ => Parses.pure _

/-- The rule reads blocks. -/
def ParsesBlock (n : Nat) (block : Rule Node) : Prop :=
  ∀ f, Parses n block (Derives [Phrase.block]) f

theorem parses_declaration (hbound : n < bound) (hblock : ParsesBlock n block) :
    Parses n (declaration block bound) (Derives [Keyword.function, .token .name, Sign.openParen,
      Phrase.names, Sign.closeParen, Phrase.block]) f := by
  refine Parses.token (scans_keyword .function) fun _ => Parses.token scans_identifier fun x => ?_
  refine Parses.token (scans_symbol (s := .openParen) rfl) fun _ => ?_
  refine Parses.bind (parses_commaList rfl rfl hbound (fun _ _ => scans_identifier.parses) ?_)
    fun params => ?_
  · intro us hus
    obtain ⟨t, ts, rfl, ht, -⟩ := derives_token_iff.mp hus
    refine ⟨t, ts, rfl, ?_⟩
    rintro rfl
    cases ht
  · refine Parses.token (scans_symbol (s := .closeParen) rfl) fun _ => ?_
    exact (hblock f).map

theorem parses_loop (hexpr : ParsesExpr n expression) (hblock : ParsesBlock n block) :
    Parses n (loop expression block) (Derives [Keyword.for, Sign.openParen, .token .name, Keyword.in,
      Phrase.expr, Sign.range, Phrase.expr, Sign.closeParen, Phrase.block]) f := by
  refine Parses.token (scans_keyword .for) fun _ => ?_
  refine Parses.token (scans_symbol (s := .openParen) rfl) fun _ => ?_
  refine Parses.token scans_identifier fun x => Parses.token (scans_keyword .in) fun _ => ?_
  refine Parses.bind (hexpr _ (ends_sign rfl)) fun first => ?_
  refine Parses.token (scans_symbol (s := .range) rfl) fun _ => ?_
  refine Parses.bind (hexpr _ (ends_sign rfl)) fun last => ?_
  refine Parses.token (scans_symbol (s := .closeParen) rfl) fun _ => ?_
  exact (hblock f).map

/-- A condition. Behind it an `else` would be its own. -/
theorem parses_conditional (hexpr : ParsesExpr n expression) (hblock : ParsesBlock n block)
    (helse : ∀ us, ¬f (.keyword .else :: us)) (hbound : n < bound) :
    Parses n (conditional expression block bound) (Derives [Keyword.if, Sign.openParen, Phrase.expr,
      Sign.closeParen, Phrase.block, Phrase.otherwise]) f := by
  induction bound generalizing n with
  | zero => exact absurd hbound (Nat.not_lt_zero n)
  | succ bound ih =>
    refine Parses.token_of_lt (scans_keyword .if) fun n' hn _ => ?_
    have hexpr' : ParsesExpr n' expression := hexpr.mono (Nat.le_of_lt hn)
    have hblock' : ParsesBlock n' block := fun f => (hblock f).mono (Nat.le_of_lt hn)
    refine Parses.token (scans_symbol (s := .openParen) rfl) fun _ => ?_
    refine Parses.bind (hexpr' _ (ends_sign rfl)) fun c => ?_
    refine Parses.token (scans_symbol (s := .closeParen) rfl) fun _ => ?_
    refine Parses.bind (hblock' _) fun yes => Parses.map ?_
    have hbranch : Parses n' (Rule.orElse (conditional expression block bound) block)
        (fun us => Derives [Phrase.conditional] us ∨ Derives [Phrase.block] us) f := by
      refine (Parses.orElse (ih hexpr' hblock' (by omega)) (hblock' f) fun us vs hus h =>
        prefer_of_apart hus (fun t ws ht h => ?_) h).congr fun us => by simp [derives_rule_iff, rules]
      obtain ⟨β, hβ, h⟩ := h.exists_rule
      obtain rfl := List.mem_singleton.mp hβ
      obtain ⟨ht', -⟩ := followed_cons_iff.mp h
      rw [ht] at ht'
      cases ht'
    refine (Parses.optional (Parses.andThen (scans_keyword .else).parses fun _ => hbranch)
      fun us vs hus h => ?_).congr fun us => ?_
    · obtain ⟨us, us', rfl, hus, -⟩ := hus
      obtain ⟨t, us, rfl, ht, -⟩ := derives_token_iff.mp hus
      rw [Token.terminal_eq_keyword] at ht
      subst ht
      exact helse _ h
    · rw [followed_or_right, ← derives_append_eq, ← derives_append_eq,
        derives_rule_iff (x := .otherwise)]
      simp [rules, or_comm]

end Marked

/-! ### All statements -/

/-- A row of statements up to the end of a block or of the text. -/
theorem parses_statements {n n' bound : Nat} {g : List Token → Prop} (hg : Closes g) (hn : n' ≤ n)
    (hbound : n' < bound)
    (hstatement : ∀ g, Closes g → Parses n (statementAt (n + 1)) (Derives [Phrase.statement]) (Rest g)) :
    Parses n' (Rule.many (statementAt (n + 1)) bound) (Derives [Phrase.program]) g := by
  have hhead : ∀ us, Derives [Phrase.statement] us → ∃ t ts, us = t :: ts ∧ startsStatement t = true := by
    intro us hus
    have hfollowed : Followed (Derives [Phrase.statement]) (· = []) (us ++ []) := ⟨us, [], rfl, hus, rfl⟩
    rw [List.append_nil] at hfollowed
    exact exists_head_of_followed_statement hfollowed
  refine Parses.many rfl (fun us hus => ?_) hbound (fun us vs hus hend => ?_)
    ((hstatement g hg).mono hn)
  · obtain ⟨t, ts, rfl, -⟩ := hhead us hus
    exact List.cons_ne_nil t ts
  · obtain ⟨t, ts, rfl, ht⟩ := hhead us hus
    rw [hg _ hend t rfl] at ht
    exact absurd ht (by decide)

theorem closes_closeBrace (f : List Token → Prop) :
    Closes (Followed (Derives [Sign.closeBrace]) f) := by
  intro ts h t ht
  obtain ⟨t', us, rfl, ht', -⟩ := followed_token_iff.mp h
  obtain rfl := Option.some.inj ht
  exact Token.terminal_eq_sign.mp ht'

/-- Statements are read as the grammar has them. -/
theorem parses_statementAt (n : Nat) {g : List Token → Prop} (hg : Closes g) :
    Parses n (statementAt (n + 1)) (Derives [Phrase.statement]) (Rest g) := by
  have hexpr : ParsesExpr n (expressionAt (n + 1)) := parsesExpr_expressionAt n
  have hbraces : ∀ f, Parses n (Reader.block (statementAt n) (n + 1))
      (Derives [Sign.openBrace, Phrase.program, Sign.closeBrace]) f := by
    refine fun f => parses_block fun n' hn => ?_
    cases n with
    | zero => exact absurd hn (Nat.not_lt_zero n')
    | succ n =>
      exact parses_statements (closes_closeBrace f) (Nat.le_of_lt_succ hn) (by omega)
        fun g hg => parses_statementAt n hg
  have hblock : ParsesBlock n (Reader.block (statementAt n) (n + 1)) := fun f =>
    (hbraces f).congr fun us => by simp [derives_rule_iff, rules]
  have helse : ∀ us, ¬Rest g (.keyword .else :: us) := fun us h => absurd (h.head hg) (by decide)
  have hforms : List.Forall₂ (Form n (Rest g))
      ((statementForms (expressionAt (n + 1)) (Reader.block (statementAt n) (n + 1)) (n + 1)).take 4)
      (rules .function ++ rules .loop ++ rules .conditional ++ rules .block) := by
    refine .cons ⟨parses_declaration (Nat.lt_succ_self n) hblock, _, _, rfl⟩ ?_
    refine .cons ⟨parses_loop hexpr hblock, _, _, rfl⟩ ?_
    refine .cons ⟨parses_conditional hexpr hblock helse (Nat.lt_succ_self n), _, _, rfl⟩ ?_
    exact .cons ⟨hbraces _, _, _, rfl⟩ .nil
  refine (Parses.oneOf hforms (parses_simple hexpr hg).oneOf_singleton (by decide) ?_).congr fun us => ?_
  · intro t us ht h
    obtain ⟨t', us', heq, hstart⟩ := exists_head_of_followed_simple (followed_assoc.mp h)
    obtain ⟨rfl, -⟩ := List.cons.inj heq
    have hmarked : t = .keyword .function ∨ t = .keyword .for ∨ t = .keyword .if ∨
        t = .sign .openBrace := by
      simpa [rules] using ht
    rcases hmarked with rfl | rfl | rfl | rfl <;> exact absurd hstart (by decide)
  · have hsimple : Followed (Derives [Phrase.simple]) IsSemicolon us ↔
        Derives [Phrase.simple] us ∨ Derives [Phrase.simple, Sign.semicolon] us := by
      rw [show IsSemicolon = fun ts => Derives [Sign.semicolon] ts ∨ Derives [] ts from rfl,
        followed_or_right, ← derives_append_eq, ← derives_append_eq]
      exact or_comm
    have hstatement : Derives [Phrase.statement] us ↔ Derives [Phrase.function] us ∨
        Derives [Phrase.loop] us ∨ Derives [Phrase.conditional] us ∨ Derives [Phrase.block] us ∨
        Derives [Phrase.simple] us ∨ Derives [Phrase.simple, Sign.semicolon] us := by
      rw [derives_rule_iff (x := .statement)]
      simp [rules]
    rw [hsimple, hstatement]
    simp only [List.mem_append, or_and_right, exists_or, ← derives_rule_iff, or_assoc]

end Kestrel.Written
