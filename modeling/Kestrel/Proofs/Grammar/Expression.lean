import Kestrel.Proofs.Grammar.Operand

/-!
# Expressions and the grammar

The machine for expressions follows `Completes` step by step: what is left of its stack, once the
operators are taken out, are the brackets that are still open (`bracketsOf`). So it ends with an
expression of the grammar, if it ends with any (`parsesExpr_expressionAt`).

A closing parenthesis inside a choice makes the machine forget that the parenthesis is open. From then
on it counts fewer parentheses than its stack holds, and cannot end with an expression anymore. That the
two numbers are equal is a part of the invariant (`Runs`).
-/

namespace Kestrel.Written

open Reader Chain

/-! ### Where the tokens can go on -/

section Followed

variable {σ : List Bracket} {f : List Token → Prop} {ts us : List Token}

theorem Followed.operand_cases (h : Followed (Completes .operand σ) f ts) :
    (∃ op us, ts = .sign (unarySign op) :: us ∧ Followed (Completes .operand σ) f us) ∨
      Followed IsOperand (Followed (Completes .operator σ) f) ts ∨
      ∃ us, ts = .sign .openParen :: us ∧ Followed (Completes .operand (.paren :: σ)) f us := by
  obtain ⟨us, vs, rfl, hus, hvs⟩ := h
  cases hus with
  | unary op h => exact .inl ⟨op, _, rfl, _, vs, rfl, h, hvs⟩
  | operand hus h => exact .inr (.inl ⟨_, _, List.append_assoc .., hus, _, vs, rfl, h, hvs⟩)
  | openParen h => exact .inr (.inr ⟨_, rfl, _, vs, rfl, h, hvs⟩)

theorem Followed.operator_cases (h : Followed (Completes .operator σ) f ts) :
    (σ = [] ∧ f ts) ∨
      (∃ op us, ts = .sign (.binary op) :: us ∧ Followed (Completes .operand σ) f us) ∨
      (∃ us, ts = .sign .question :: us ∧ Followed (Completes .operand (.condition :: σ)) f us) ∨
      ∃ b τ us, σ = b :: τ ∧ ts = .sign b.close :: us ∧ Followed (Completes b.mode τ) f us := by
  obtain ⟨us, vs, rfl, hus, hvs⟩ := h
  cases hus with
  | done => exact .inl ⟨rfl, hvs⟩
  | binary op h => exact .inr (.inl ⟨op, _, rfl, _, vs, rfl, h, hvs⟩)
  | question h => exact .inr (.inr (.inl ⟨_, rfl, _, vs, rfl, h, hvs⟩))
  | close b h => exact .inr (.inr (.inr ⟨b, _, _, rfl, rfl, _, vs, rfl, h, hvs⟩))

theorem Followed.not_isOperand {t : Token} (ht : startsOperand t = false) :
    ¬Followed IsOperand f (t :: us) := by
  rintro ⟨vs, ws, hsplit, hvs, -⟩
  obtain ⟨u, vs, rfl, hu⟩ := hvs.exists_head
  obtain ⟨rfl, -⟩ := List.cons.inj hsplit
  rw [ht] at hu
  cases hu

/-- What the first token says where an operand is needed. -/
theorem Followed.operand_cons {t : Token} (h : Followed (Completes .operand σ) f (t :: us)) :
    (∃ op, t = .sign (unarySign op) ∧ Followed (Completes .operand σ) f us) ∨
      Followed IsOperand (Followed (Completes .operator σ) f) (t :: us) ∨
      t = .sign .openParen ∧ Followed (Completes .operand (.paren :: σ)) f us := by
  rcases h.operand_cases with ⟨op, us', heq, h⟩ | h | ⟨us', heq, h⟩
  · cases heq
    exact .inl ⟨op, rfl, h⟩
  · exact .inr (.inl h)
  · cases heq
    exact .inr (.inr ⟨rfl, h⟩)

/-- What the first token says where an operator may come. -/
theorem Followed.operator_cons {t : Token} (h : Followed (Completes .operator σ) f (t :: us)) :
    (σ = [] ∧ f (t :: us)) ∨
      (∃ op, t = .sign (.binary op) ∧ Followed (Completes .operand σ) f us) ∨
      (t = .sign .question ∧ Followed (Completes .operand (.condition :: σ)) f us) ∨
      ∃ b τ, σ = b :: τ ∧ t = .sign b.close ∧ Followed (Completes b.mode τ) f us := by
  rcases h.operator_cases with h | ⟨op, us', heq, h⟩ | ⟨us', heq, h⟩ | ⟨b, τ, us', hσ, heq, h⟩
  · exact .inl h
  · cases heq
    exact .inr (.inl ⟨op, rfl, h⟩)
  · cases heq
    exact .inr (.inr (.inl ⟨rfl, h⟩))
  · cases heq
    exact .inr (.inr (.inr ⟨b, τ, hσ, rfl, h⟩))

theorem Followed.of_unary {op : UnaryOp}
    (h : Followed (Completes .operand σ) f (.sign (unarySign op) :: us)) :
    Followed (Completes .operand σ) f us := by
  rcases h.operand_cons with ⟨op', -, h⟩ | h | ⟨heq, -⟩
  · exact h
  · exact absurd h (Followed.not_isOperand (by cases op <;> rfl))
  · cases op <;> cases heq

theorem Followed.of_openParen (h : Followed (Completes .operand σ) f (.sign .openParen :: us)) :
    Followed (Completes .operand (.paren :: σ)) f us := by
  rcases h.operand_cons with ⟨op, heq, -⟩ | h | ⟨-, h⟩
  · cases op <;> cases heq
  · exact absurd h (Followed.not_isOperand rfl)
  · exact h

/-- An operator between operands goes on with the expression. If the expression could end in front of
it, the operator would be one in front of another expression. -/
theorem Followed.of_binary (hf : Ends f) {op : BinaryOp}
    (h : Followed (Completes .operator σ) f (.sign (.binary op) :: us)) :
    Followed (Completes .operand σ) f us := by
  rcases h.operator_cons with ⟨rfl, hend⟩ | ⟨op', -, h⟩ | ⟨heq, -⟩ | ⟨b, τ, -, heq, -⟩
  · rcases hf _ hend with hstops | hmore
    · exact absurd (hstops _ rfl) (by simp [Token.stops, Token.binary?])
    · rcases hmore.operand_cons with ⟨op', -, h⟩ | h | ⟨heq, -⟩
      · exact h
      · exact absurd h (Followed.not_isOperand rfl)
      · cases heq
  · exact h
  · cases heq
  · cases b <;> cases heq

theorem Followed.of_question (hf : Ends f)
    (h : Followed (Completes .operator σ) f (.sign .question :: us)) :
    Followed (Completes .operand (.condition :: σ)) f us := by
  rcases h.operator_cons with ⟨rfl, hend⟩ | ⟨op, heq, -⟩ | ⟨-, h⟩ | ⟨b, τ, -, heq, -⟩
  · rcases hf _ hend with hstops | hmore
    · exact absurd (hstops _ rfl) (by decide)
    · rcases hmore.operand_cons with ⟨op, heq, -⟩ | h | ⟨heq, -⟩
      · cases op <;> cases heq
      · exact absurd h (Followed.not_isOperand rfl)
      · cases heq
  · cases heq
  · exact h
  · cases b <;> cases heq

theorem Followed.of_close {b : Bracket}
    (h : Followed (Completes .operator (b :: σ)) f (.sign b.close :: us)) :
    Followed (Completes b.mode σ) f us := by
  rcases h.operator_cons with ⟨heq, -⟩ | ⟨op, heq, -⟩ | ⟨heq, -⟩ | ⟨b', τ, hσ, -, h⟩
  · cases heq
  · cases b <;> cases heq
  · cases b <;> cases heq
  · cases hσ
    exact h

/-- Behind an operand a parenthesis only stands where the expression can end, and then another
expression starts with it. -/
theorem absorbs_completes (hf : Ends f) : Absorbs (Followed (Completes .operator σ) f) := by
  intro us h
  rcases h.operator_cons with ⟨rfl, hend⟩ | ⟨op, heq, -⟩ | ⟨heq, -⟩ | ⟨b, τ, -, heq, -⟩
  · rcases hf _ hend with hstops | hmore
    · exact absurd (hstops _ rfl) (by decide)
    · -- the other expression completes what the parenthesis opens, and stands alone up to its end
      obtain ⟨xs, ys, rfl, hxs, hys⟩ := hmore.of_openParen
      obtain ⟨vs, ws, rfl, hvs, hws⟩ := Completes.split (τ := []) hxs
      refine followed_phrase_iff.mpr ⟨vs, _, List.append_assoc .., derives_of_completes hvs, ?_⟩
      exact followed_token_iff.mpr ⟨_, _, rfl, rfl, followed_nil_iff.mpr ⟨ws, ys, rfl, hws, hys⟩⟩
  · cases heq
  · cases heq
  · cases b <;> cases heq

end Followed

/-! ### The brackets on the stack -/

/-- The brackets that are open. -/
def bracketsOf : List Pending → List Bracket
  | [] => []
  | .paren :: stack => .paren :: bracketsOf stack
  | .condition _ :: stack => .condition :: bracketsOf stack
  | _ :: stack => bracketsOf stack

/-- Completing operators leaves the brackets. -/
theorem bracketsOf_settle (level : Nat) (stack : List Pending) (e : Node) :
    bracketsOf (settle level stack e).1 = bracketsOf stack := by
  fun_induction settle level stack e with
  | case1 | case3 | case5 => simpa [bracketsOf] using ‹_›
  | _ => rfl

/-- With everything complete a bracket is on top, or the stack is empty. -/
theorem settle_zero_cases (stack : List Pending) (e : Node) :
    match bracketsOf stack with
    | [] => (settle 0 stack e).1 = []
    | .paren :: σ => ∃ stack', (settle 0 stack e).1 = .paren :: stack' ∧ bracketsOf stack' = σ
    | .condition :: σ =>
      ∃ c stack', (settle 0 stack e).1 = .condition c :: stack' ∧ bracketsOf stack' = σ := by
  fun_induction settle 0 stack e with
  | case1 op stack e h ih => simpa [bracketsOf] using ih
  | case2 op stack e h => exact absurd (show 0 < UnaryOp.level by decide) h
  | case3 op l stack e h ih => simpa [bracketsOf] using ih
  | case4 op l stack e h => exact absurd (Nat.zero_lt_of_lt (choiceLevel_lt_level op)) h
  | case5 c t stack e h ih => simpa [bracketsOf] using ih
  | case6 c t stack e h => exact absurd (show 0 < choiceLevel by decide) h
  | case7 stack e hunary hbinary hotherwise =>
    cases stack with
    | nil => rfl
    | cons p stack =>
      cases p with
      | unary op => exact absurd rfl (hunary op stack)
      | binary op l => exact absurd rfl (hbinary op l stack)
      | otherwise c t => exact absurd rfl (hotherwise c t stack)
      | condition c => exact ⟨c, stack, rfl, rfl⟩
      | paren => exact ⟨stack, rfl, rfl⟩

/-! ### The machine -/

/-- What the machine needs next. -/
def modeOf (s : State) : Mode :=
  if s.current.isNone then .operand else .operator

/-- The machine needs this next, and has these brackets open. It may have lost count of some. -/
structure Ready (s : State) (m : Mode) (σ : List Bracket) (ts : List Token) : Prop where
  /-- the tokens that are left -/
  stands : Stands s.cursor ts
  /-- what comes next -/
  mode : modeOf s = m
  /-- the open brackets -/
  brackets : bracketsOf s.stack = σ
  /-- the parentheses of which the machine knows are open -/
  count : s.unclosed ≤ σ.count .paren

/-- What the machine ends with from a state where the tokens `ts` stand. -/
inductive Runs (operand : Rule Node) (f : List Token → Prop) (bound : Nat) (s : State) (m : Mode)
    (σ : List Bracket) (ts : List Token) : Prop where
  /-- there is no expression, nor can there be one unless the count of parentheses is wrong -/
  | failed {problem : Chain.Problem} {rest : List Char}
    (h : run operand bound s = .failed problem rest)
    (hf : s.unclosed = σ.count .paren → ¬Followed (Completes m σ) f ts)
  /-- the tokens `us` complete the expression -/
  | done {e : Node} {d : Cursor} {us vs : List Token} (h : run operand bound s = .done e d)
    (hcount : s.unclosed = σ.count .paren) (hts : ts = us ++ vs) (hvs : Stands d vs)
    (hus : Completes m σ us) (hf : Followed (Completes m σ) f ts → f vs)

section Machine

variable {operand : Rule Node} {f : List Token → Prop} {bound n : Nat} {s s' : State}
  {m m' : Mode} {σ σ' : List Bracket} {ts us : List Token} {stack : List Pending} {unclosed : Nat}
  {e : Node} {c : Cursor}

/-- One step more, over the tokens `xs`. -/
theorem Runs.step (xs : List Token) (h : Runs operand f bound s' m' σ' us)
    (hstep : Chain.step operand s = .more s') (hts : ts = xs ++ us)
    (hcount : s.unclosed = σ.count .paren ↔ s'.unclosed = σ'.count .paren)
    (hcompletes : ∀ ys, Completes m' σ' ys → Completes m σ (xs ++ ys))
    (hfollowed : Followed (Completes m σ) f ts → Followed (Completes m' σ') f us) :
    Runs operand f (bound + 1) s m σ ts := by
  have hrun : run operand (bound + 1) s = run operand bound s' := by rw [run, hstep]
  cases h with
  | failed h hf =>
    exact .failed (hrun.trans h) fun hbalanced hts => hf (hcount.mp hbalanced) (hfollowed hts)
  | done h hbalanced hsplit hvs hus hf =>
    refine .done (hrun.trans h) (hcount.mpr hbalanced) ?_ hvs (hcompletes _ hus)
      fun hts => hf (hfollowed hts)
    rw [hts, hsplit, List.append_assoc]

/-- Where an operand is needed. -/
theorem runs_operand
    (hoperand : Parses n operand IsOperand (Followed (Completes .operator σ) f))
    (hts : ts.length ≤ n) (hready : Ready ⟨stack, unclosed, none, c⟩ .operand σ ts)
    (ih : ∀ s' m' σ' us, Ready s' m' σ' us → us.length < ts.length →
      Runs operand f bound s' m' σ' us) :
    Runs operand f (bound + 1) ⟨stack, unclosed, none, c⟩ .operand σ ts := by
  obtain ⟨hc, -, rfl, hunclosed⟩ := hready
  by_cases hunary : ∃ op us, ts = .sign (unarySign op) :: us
  · obtain ⟨op, us, rfl⟩ := hunary
    obtain ⟨c', hstep, hc'⟩ := step_unary stack unclosed (Token.unary?_eq_some.mpr rfl) hc
    have hruns := ih ⟨.unary op :: stack, unclosed, none, c'⟩ _ _ us ⟨hc', rfl, rfl, hunclosed⟩ (by simp)
    exact hruns.step [_] hstep rfl Iff.rfl (fun ys h => .unary op h) Followed.of_unary
  have hhead : ∀ t, ts.head? = some t → t.unary? = none := by
    intro t ht
    obtain ⟨us, rfl⟩ := List.head?_eq_some_iff.mp ht
    by_contra hsome
    obtain ⟨op, hop⟩ := Option.ne_none_iff_exists'.mp hsome
    exact hunary ⟨op, us, by rw [Token.unary?_eq_some.mp hop]⟩
  cases hoperand c ts hc hts with
  | @ok e d us vs h hsplit hvs hus hf =>
    have hstep := step_operand stack unclosed hhead h hc
    obtain ⟨t, ts', rfl, ht⟩ := hus.exists_head
    have hlength : vs.length < ts.length := by
      rw [hsplit, List.length_append, List.length_cons]
      omega
    have hruns := ih ⟨stack, unclosed, some e, d⟩ _ _ vs ⟨hvs, rfl, rfl, hunclosed⟩ hlength
    refine hruns.step _ hstep hsplit Iff.rfl (fun ys h => .operand hus h) fun hfollowed => hf ?_
    rcases hfollowed.operand_cases with ⟨op, us', heq, -⟩ | h | ⟨us', heq, -⟩
    · exact absurd ⟨op, us', heq⟩ hunary
    · exact h
    · rw [hsplit] at heq
      obtain ⟨rfl, -⟩ := List.cons.inj heq
      cases ht
  | no h hno =>
    by_cases hparen : ∃ us, ts = .sign .openParen :: us
    · obtain ⟨us, rfl⟩ := hparen
      obtain ⟨c', hstep, hc'⟩ := step_openParen stack unclosed h hc
      -- the machine and its stack count one parenthesis more, so they agree as they did before
      have hcount : (Bracket.paren :: bracketsOf stack).count .paren =
          (bracketsOf stack).count .paren + 1 := List.count_cons_self
      have hle : unclosed + 1 ≤ (Bracket.paren :: bracketsOf stack).count .paren :=
        hcount ▸ Nat.succ_le_succ hunclosed
      have hruns := ih ⟨.paren :: stack, unclosed + 1, none, c'⟩ _ _ us ⟨hc', rfl, rfl, hle⟩ (by simp)
      refine hruns.step [_] hstep rfl ?_ (fun ys h => .openParen h) Followed.of_openParen
      rw [bracketsOf, hcount]
      exact Nat.add_right_cancel_iff.symm
    · have hstep := step_missing stack unclosed hhead h
        (fun ht => hparen (List.head?_eq_some_iff.mp ht)) hc
      refine .failed (run_of_step hstep (by simp) bound) fun _ hfollowed => ?_
      rcases hfollowed.operand_cases with ⟨op, us', heq, -⟩ | h | ⟨us', heq, -⟩
      · exact hunary ⟨op, us', heq⟩
      · exact hno h
      · exact hparen ⟨us', heq⟩

/-- At a closing parenthesis, if the machine knows of an open one. -/
theorem runs_closeParen
    (hready : Ready ⟨stack, unclosed + 1, some e, c⟩ .operator σ (.sign .closeParen :: us))
    (ih : ∀ s' m' σ', Ready s' m' σ' us → Runs operand f bound s' m' σ' us) :
    Runs operand f (bound + 1) ⟨stack, unclosed + 1, some e, c⟩ .operator σ
      (.sign .closeParen :: us) := by
  obtain ⟨hc, -, hbrackets, hunclosed⟩ := hready
  obtain ⟨c', hstep, hc'⟩ := step_closeParen operand stack unclosed e hc
  have hcases := settle_zero_cases stack e
  rw [hbrackets] at hcases
  rcases σ with _ | ⟨b, σ⟩
  · exact absurd hunclosed (Nat.not_succ_le_zero unclosed)
  · cases b with
    | paren =>
      obtain ⟨stack', hstack', hσ⟩ := hcases
      have hclose : close ⟨stack, unclosed + 1, some e, c⟩ e c' =
          ⟨stack', unclosed, some (settle 0 stack e).2, c'⟩ := by
        rw [close, ← Prod.eta (settle 0 stack e), hstack']
        rfl
      rw [hclose] at hstep
      rw [List.count_cons_self] at hunclosed
      have hle : unclosed ≤ σ.count .paren := Nat.le_of_succ_le_succ hunclosed
      have hruns := ih ⟨stack', unclosed, some (settle 0 stack e).2, c'⟩ _ _ ⟨hc', rfl, hσ, hle⟩
      refine hruns.step [_] hstep rfl ?_ (fun ys h => .close .paren h) Followed.of_close
      rw [List.count_cons_self]
      exact Nat.add_right_cancel_iff
    | condition =>
      -- the parenthesis in the stack is not taken off, but counted as closed
      obtain ⟨cond, stack', hstack', hσ⟩ := hcases
      have hclose : close ⟨stack, unclosed + 1, some e, c⟩ e c' =
          ⟨.condition cond :: stack', unclosed, some (settle 0 stack e).2, c'⟩ := by
        rw [close, ← Prod.eta (settle 0 stack e), hstack']
        rfl
      rw [hclose] at hstep
      have hlost : unclosed < (Bracket.condition :: σ).count .paren := hunclosed
      have hbrackets' : bracketsOf (.condition cond :: stack') = .condition :: σ := by
        rw [bracketsOf, hσ]
      have hready' : Ready ⟨.condition cond :: stack', unclosed, some (settle 0 stack e).2, c'⟩
          .operator (.condition :: σ) us := ⟨hc', rfl, hbrackets', Nat.le_of_lt hlost⟩
      cases ih _ _ _ hready' with
      | failed h _ =>
        refine .failed (by rw [run, hstep]; exact h) fun _ hfollowed => ?_
        rcases hfollowed.operator_cons with ⟨heq, -⟩ | ⟨op, heq, -⟩ | ⟨heq, -⟩ | ⟨b, τ, hτ, heq, -⟩
        · cases heq
        · cases heq
        · cases heq
        · cases hτ
          cases heq
      | done _ hcount => exact absurd hcount (Nat.ne_of_lt hlost)

/-- At a token with which the expression does not go on. -/
theorem runs_stop (hready : Ready ⟨stack, unclosed, some e, c⟩ .operator σ ts)
    (hbinary : ∀ t, ts.head? = some t → t.binary? = none)
    (hquestion : ts.head? ≠ some (.sign .question))
    (hclose : ts.head? = some (.sign .closeParen) → unclosed = 0)
    (hcolon : ts.head? = some (.sign .colon) → ∀ τ, σ ≠ .condition :: τ) :
    Runs operand f (bound + 1) ⟨stack, unclosed, some e, c⟩ .operator σ ts := by
  obtain ⟨hc, -, hbrackets, hunclosed⟩ := hready
  have hcases := settle_zero_cases stack e
  rw [hbrackets] at hcases
  have hwaits : ts.head? = some (.sign .colon) →
      ∀ cond stack' e', settle 0 stack e ≠ (.condition cond :: stack', e') := by
    intro ht cond stack' e' hsettle
    have hsame := bracketsOf_settle 0 stack e
    rw [hsettle, hbrackets, bracketsOf] at hsame
    exact hcolon ht _ hsame.symm
  have hstep := step_stop operand stack unclosed e hbinary hquestion hclose hwaits hc
  have hfollowed : Followed (Completes .operator σ) f ts → (σ = [] ∧ f ts) ∨
      ∃ τ, σ = .paren :: τ ∧ ts.head? = some (.sign .closeParen) := by
    intro h
    rcases h.operator_cases with hend | ⟨op, us, rfl, -⟩ | ⟨us, rfl, -⟩ | ⟨b, τ, us, rfl, rfl, -⟩
    · exact .inl hend
    · exact absurd (hbinary _ rfl) (by simp [Token.binary?])
    · exact absurd rfl hquestion
    · cases b with
      | paren => exact .inr ⟨τ, rfl, rfl⟩
      | condition => exact absurd rfl (hcolon rfl τ)
  cases σ with
  | nil =>
    have hdone : finish ⟨stack, unclosed, some e, c⟩ e = .done (settle 0 stack e).2 c :=
      finish_eq_done (by rw [← hcases])
    refine .done (run_of_step (hstep.trans hdone) (by simp) bound) (Nat.le_zero.mp hunclosed)
      (List.nil_append ts).symm hc .done fun h => ?_
    rcases hfollowed h with ⟨-, h⟩ | ⟨τ, heq, -⟩
    · exact h
    · cases heq
  | cons b σ =>
    have hfailed : finish ⟨stack, unclosed, some e, c⟩ e = .failed .unbalanced c.afterComments := by
      rw [finish, ← Prod.eta (settle 0 stack e)]
      cases b with
      | paren =>
        obtain ⟨stack', hstack', -⟩ := hcases
        rw [hstack']
      | condition =>
        obtain ⟨cond, stack', hstack', -⟩ := hcases
        rw [hstack']
    refine .failed (run_of_step (hstep.trans hfailed) (by simp) bound) fun hcount h => ?_
    rcases hfollowed h with ⟨heq, -⟩ | ⟨τ, hσ, ht⟩
    · cases heq
    · obtain ⟨rfl, -⟩ := List.cons.inj hσ
      rw [List.count_cons_self, hclose ht] at hcount
      cases hcount

/-- Where an operator or the end may come. -/
theorem runs_operator (hf : Ends f) (hready : Ready ⟨stack, unclosed, some e, c⟩ .operator σ ts)
    (ih : ∀ s' m' σ' us, Ready s' m' σ' us → us.length < ts.length →
      Runs operand f bound s' m' σ' us) :
    Runs operand f (bound + 1) ⟨stack, unclosed, some e, c⟩ .operator σ ts := by
  have hc : Stands c ts := hready.stands
  have hbrackets : bracketsOf stack = σ := hready.brackets
  have hunclosed : unclosed ≤ σ.count .paren := hready.count
  by_cases hclose : ts.head? = some (.sign .closeParen) ∧ unclosed ≠ 0
  · obtain ⟨hhead, hpos⟩ := hclose
    obtain ⟨us, rfl⟩ := List.head?_eq_some_iff.mp hhead
    obtain ⟨unclosed, rfl⟩ := Nat.exists_eq_succ_of_ne_zero hpos
    exact runs_closeParen hready fun s' m' σ' h => ih s' m' σ' us h (by simp)
  by_cases hcolon : ts.head? = some (.sign .colon) ∧ ∃ τ, σ = .condition :: τ
  · obtain ⟨hhead, τ, rfl⟩ := hcolon
    obtain ⟨us, rfl⟩ := List.head?_eq_some_iff.mp hhead
    have hcases := settle_zero_cases stack e
    rw [hbrackets] at hcases
    obtain ⟨cond, stack', hstack', hτ⟩ := hcases
    have hsettle : settle 0 stack e = (.condition cond :: stack', (settle 0 stack e).2) := by
      rw [← hstack']
    obtain ⟨c', hstep, hc'⟩ := step_colon operand stack unclosed e hsettle hc
    have hruns := ih ⟨.otherwise cond (settle 0 stack e).2 :: stack', unclosed, none, c'⟩ _ τ us
      ⟨hc', rfl, hτ, hunclosed⟩ (by simp)
    exact hruns.step [_] hstep rfl Iff.rfl (fun ys h => .close .condition h) Followed.of_close
  by_cases hbinary : ∃ op us, ts = .sign (.binary op) :: us
  · obtain ⟨op, us, rfl⟩ := hbinary
    obtain ⟨c', hstep, hc'⟩ := step_binary operand stack unclosed e hc
    have hsame : bracketsOf (.binary op (settle (op.level - 1) stack e).2 ::
        (settle (op.level - 1) stack e).1) = σ :=
      (bracketsOf_settle (op.level - 1) stack e).trans hbrackets
    have hruns := ih ⟨_, unclosed, none, c'⟩ _ σ us ⟨hc', rfl, hsame, hunclosed⟩ (by simp)
    exact hruns.step [_] hstep rfl Iff.rfl (fun ys h => .binary op h) (Followed.of_binary hf)
  by_cases hquestion : ts.head? = some (.sign .question)
  · obtain ⟨us, rfl⟩ := List.head?_eq_some_iff.mp hquestion
    obtain ⟨c', hstep, hc'⟩ := step_question operand stack unclosed e hc
    have hsame : bracketsOf (.condition (settle choiceLevel stack e).2 ::
        (settle choiceLevel stack e).1) = .condition :: σ := by
      rw [bracketsOf, bracketsOf_settle, hbrackets]
    have hruns := ih ⟨_, unclosed, none, c'⟩ _ _ us ⟨hc', rfl, hsame, hunclosed⟩ (by simp)
    exact hruns.step [_] hstep rfl Iff.rfl (fun ys h => .question h) (Followed.of_question hf)
  refine runs_stop hready (fun t ht => ?_) hquestion (fun ht => ?_) fun ht τ hτ => hcolon ⟨ht, τ, hτ⟩
  · obtain ⟨us, rfl⟩ := List.head?_eq_some_iff.mp ht
    by_contra hsome
    obtain ⟨op, hop⟩ := Option.ne_none_iff_exists'.mp hsome
    exact hbinary ⟨op, us, by rw [Token.binary?_eq_some.mp hop]⟩
  · by_contra hpos
    exact hclose ⟨ht, hpos⟩

/-- From every state the machine ends, and as it should, in fewer steps than the bound allows. -/
theorem runs_of_ready (hf : Ends f)
    (hoperand : ∀ σ, Parses n operand IsOperand (Followed (Completes .operator σ) f))
    (hready : Ready s m σ ts) (hts : ts.length ≤ n) (hbound : ts.length < bound) :
    Runs operand f bound s m σ ts := by
  induction bound generalizing s m σ ts with
  | zero => exact absurd hbound (Nat.not_lt_zero _)
  | succ bound ih =>
    obtain ⟨stack, unclosed, current, c⟩ := s
    have hnext : ∀ s' m' σ' us, Ready s' m' σ' us → us.length < ts.length →
        Runs operand f bound s' m' σ' us :=
      fun s' m' σ' us h hlength => ih h (by omega) (by omega)
    cases current with
    | none =>
      obtain rfl : Mode.operand = m := hready.mode
      exact runs_operand (hoperand σ) hts hready hnext
    | some e =>
      obtain rfl : Mode.operator = m := hready.mode
      exact runs_operator hf hready hnext

end Machine

/-! ### Expressions -/

/-- What the machine takes for an expression is one, and it finds one where there is one. -/
theorem parsesExpr_expressionAt (n : Nat) : ParsesExpr n (expressionAt (n + 1)) := by
  intro f hf
  have hoperand : ∀ σ, Parses n (operand (expressionAt n) n) IsOperand
      (Followed (Completes .operator σ) f) := by
    intro σ
    cases n with
    | zero => exact parses_operand_zero 0
    | succ n => exact parses_operand (parsesExpr_expressionAt n) (absorbs_completes hf)
  have hexpr : Parses n (expressionAt (n + 1)) (Completes .operand []) f := by
    intro c ts hc hts
    have hready : Ready (Chain.start c) .operand [] ts := ⟨hc, rfl, rfl, Nat.le_refl 0⟩
    cases runs_of_ready hf hoperand hready hts (Nat.lt_succ_of_le hts) with
    | failed h hno =>
      refine .no ?_ (hno rfl)
      rw [expressionAt, chainAt_succ, h]
      rfl
    | @done e d us vs h _ hsplit hvs hus hf' =>
      have hrun : expressionAt (n + 1) c = .ok e d := by
        rw [expressionAt, chainAt_succ, h]
        rfl
      exact .ok hrun hsplit hvs hus hf'
  exact hexpr.congr fun us => ⟨derives_of_completes, completes_of_derives⟩

end Kestrel.Written
