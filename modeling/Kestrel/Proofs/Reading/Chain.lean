import Kestrel.Proofs.Reading.Operand

/-!
# The steps of the machine for expressions

What the machine does at each token, first where it needs an operand (`step_unary`, `step_operand`,
`step_openParen`, `step_missing`) and then where it has one (`step_closeParen`, `step_colon`,
`step_binary`, `step_question`, `step_stop`). `Moves` counts the steps between two states, so that a
run can be put together from pieces without a look at the bound on its length.
-/

namespace Kestrel.Written

open Reader Chain

variable {operand : Rule Node}

/-! ### Runs -/

/-- In `n` steps the machine comes from one state to the other. -/
def Moves (operand : Rule Node) (n : Nat) (s s' : State) : Prop :=
  ∀ bound, run operand (n + bound) s = run operand bound s'

theorem Moves.trans {m n : Nat} {s s' s'' : State} (h : Moves operand m s s')
    (h' : Moves operand n s' s'') : Moves operand (m + n) s s'' := by
  intro bound
  rw [Nat.add_assoc, h, h']

theorem Moves.step {s s' : State} (h : Chain.step operand s = .more s') : Moves operand 1 s s' := by
  intro bound
  rw [Nat.add_comm, run, h]

/-- A step that leads to no other one ends the run. -/
theorem run_of_step {s : State} {next : Next} (h : Chain.step operand s = next)
    (hmore : ∀ s', next ≠ .more s') (bound : Nat) : run operand (bound + 1) s = next := by
  rw [run, h]
  cases next with
  | more s' => exact absurd rfl (hmore s')
  | _ => rfl

/-! ### Where an operand is needed -/

section Operand

variable (stack : List Pending) (unclosed : Nat) {c : Cursor} {t : Token} {ts us : List Token}

theorem step_unary {op : UnaryOp} (ht : t.unary? = some op) (hc : Stands c (t :: us)) :
    ∃ c', step operand ⟨stack, unclosed, none, c⟩ = .more ⟨.unary op :: stack, unclosed, none, c'⟩ ∧
      Stands c' us := by
  obtain ⟨c', hc', hus⟩ := takes_unaryOp.reads ht us c hc
  exact ⟨c', by simp only [step, stepOperand, hc'], hus⟩

/-- Where no operator stands in front. -/
theorem refuses_unaryOp (h : ∀ t, ts.head? = some t → t.unary? = none) : Refuses unaryOp ts :=
  takes_unaryOp.refuses h

theorem step_operand {e : Node} {c' : Cursor} (hunary : ∀ t, ts.head? = some t → t.unary? = none)
    (h : operand c = .ok e c') (hc : Stands c ts) :
    step operand ⟨stack, unclosed, none, c⟩ = .more ⟨stack, unclosed, some e, c'⟩ := by
  simp only [step, stepOperand, refuses_unaryOp hunary c hc, h]

theorem step_openParen (h : operand c = .no) (hc : Stands c (.sign .openParen :: us)) :
    ∃ c', step operand ⟨stack, unclosed, none, c⟩ = .more ⟨.paren :: stack, unclosed + 1, none, c'⟩ ∧
      Stands c' us := by
  obtain ⟨c', hc', hus⟩ := reads_symbol (s := .openParen) rfl us c hc
  have hunary : unaryOp c = .no := refuses_unaryOp (by simp [Token.unary?]) c hc
  have hparen : symbol "(" c = .ok () c' := hc'
  exact ⟨c', by simp only [step, stepOperand, hunary, h, hparen], hus⟩

theorem step_missing (hunary : ∀ t, ts.head? = some t → t.unary? = none) (h : operand c = .no)
    (hparen : ts.head? ≠ some (.sign .openParen)) (hc : Stands c ts) :
    step operand ⟨stack, unclosed, none, c⟩ = .failed .missingOperand c.afterComments := by
  have hsymbol : symbol "(" c = .no := refuses_symbol (s := .openParen) rfl hparen c hc
  simp only [step, stepOperand, refuses_unaryOp hunary c hc, h, hsymbol]

end Operand

/-! ### Where an operand has been read -/

section Operator

variable (operand) (stack : List Pending) (unclosed : Nat) (e : Node) {c : Cursor} {ts us : List Token}

/-- The rules for signs, where another token stands. -/
theorem symbol_eq_no {s : Sign} (hs : s.isPlain = true) (h : ts.head? ≠ some (.sign s))
    (hc : Stands c ts) : symbol s.text c = .no :=
  refuses_symbol hs h c hc

theorem closing_eq_no (h : ts.head? ≠ some (.sign .closeParen)) (hc : Stands c ts) :
    (if unclosed = 0 then .no else symbol ")" c) = .no := by
  have hsymbol : symbol ")" c = .no := symbol_eq_no (s := .closeParen) rfl h hc
  rw [hsymbol, ite_self]

theorem step_closeParen (hc : Stands c (.sign .closeParen :: us)) :
    ∃ c', step operand ⟨stack, unclosed + 1, some e, c⟩ =
        .more (close ⟨stack, unclosed + 1, some e, c⟩ e c') ∧ Stands c' us := by
  obtain ⟨c', hc', hus⟩ := reads_symbol (s := .closeParen) rfl us c hc
  have hclosing : symbol ")" c = .ok () c' := hc'
  exact ⟨c', by simp [step, stepOperator, hclosing], hus⟩

theorem step_colon {cond e' : Node} {stack' : List Pending}
    (hsettle : settle 0 stack e = (.condition cond :: stack', e')) (hc : Stands c (.sign .colon :: us)) :
    ∃ c', step operand ⟨stack, unclosed, some e, c⟩ =
        .more ⟨.otherwise cond e' :: stack', unclosed, none, c'⟩ ∧ Stands c' us := by
  obtain ⟨c', hc', hus⟩ := reads_symbol (s := .colon) rfl us c hc
  have hcolon : symbol ":" c = .ok () c' := hc'
  have hclosing := closing_eq_no unclosed (by simp) hc
  exact ⟨c', by simp only [step, stepOperator, hclosing, hcolon, hsettle], hus⟩

theorem step_binary {op : BinaryOp} (hc : Stands c (.sign (.binary op) :: us)) :
    ∃ c', step operand ⟨stack, unclosed, some e, c⟩ =
        .more ⟨.binary op (settle (op.level - 1) stack e).2 :: (settle (op.level - 1) stack e).1,
          unclosed, none, c'⟩ ∧ Stands c' us := by
  obtain ⟨c', hc', hus⟩ := takes_binaryOp.reads (a := op) rfl us c hc
  have hclosing := closing_eq_no unclosed (by simp) hc
  have hcolon : symbol ":" c = .no := symbol_eq_no (s := .colon) rfl (by simp) hc
  exact ⟨c', by simp only [step, stepOperator, hclosing, hcolon, hc'], hus⟩

theorem step_question (hc : Stands c (.sign .question :: us)) :
    ∃ c', step operand ⟨stack, unclosed, some e, c⟩ =
        .more ⟨.condition (settle choiceLevel stack e).2 :: (settle choiceLevel stack e).1,
          unclosed, none, c'⟩ ∧ Stands c' us := by
  obtain ⟨c', hc', hus⟩ := reads_symbol (s := .question) rfl us c hc
  have hquestion : symbol "?" c = .ok () c' := hc'
  have hclosing := closing_eq_no unclosed (by simp) hc
  have hcolon : symbol ":" c = .no := symbol_eq_no (s := .colon) rfl (by simp) hc
  have hbinary : binaryOp c = .no := takes_binaryOp.refuses (by simp [Token.binary?]) c hc
  exact ⟨c', by simp only [step, stepOperator, hclosing, hcolon, hbinary, hquestion], hus⟩

/-- A token that may not go on with the expression at all. -/
theorem step_stop (hbinary : ∀ t, ts.head? = some t → t.binary? = none)
    (hquestion : ts.head? ≠ some (.sign .question))
    (hclose : ts.head? = some (.sign .closeParen) → unclosed = 0)
    (hcolon : ts.head? = some (.sign .colon) →
      ∀ cond stack' e', settle 0 stack e ≠ (.condition cond :: stack', e')) (hc : Stands c ts) :
    step operand ⟨stack, unclosed, some e, c⟩ = finish ⟨stack, unclosed, some e, c⟩ e := by
  have hclosing : (if unclosed = 0 then Parsed.no else symbol ")" c) = .no := by
    by_cases h : ts.head? = some (.sign .closeParen)
    · rw [if_pos (hclose h)]
    · exact closing_eq_no unclosed h hc
  have hop : binaryOp c = .no := takes_binaryOp.refuses hbinary c hc
  have hask : symbol "?" c = .no := symbol_eq_no (s := .question) rfl hquestion hc
  simp only [step, stepOperator, hclosing, hop, hask]
  split
  · -- a colon, but no condition waits for it
    rename_i c' cond stack' e' hread hsettle
    have hhead : ts.head? = some (.sign .colon) := by
      by_contra h
      have hno : symbol ":" c = .no := symbol_eq_no (s := .colon) rfl h hc
      rw [hno] at hread
      cases hread
    exact absurd hsettle (hcolon hhead cond stack' e')
  · rfl

end Operator

/-! ### The end of a run -/

/-- No expression goes on with this token. -/
def Token.stops (t : Token) : Bool :=
  t.binary?.isNone && t ≠ .sign .question && t ≠ .sign .openParen

/-- No expression goes on with these tokens. -/
def Stops (us : List Token) : Prop :=
  ∀ t, us.head? = some t → t.stops = true

theorem stops_cons {t : Token} (h : t.stops = true) (us : List Token) : Stops (t :: us) := by
  intro u hu
  obtain rfl := Option.some.inj hu
  exact h

section Stops

variable {us : List Token}

theorem Stops.binary (h : Stops us) : ∀ t, us.head? = some t → t.binary? = none := by
  intro t ht
  have hstops := h t ht
  simp only [Token.stops, Bool.and_eq_true, Option.isNone_iff_eq_none] at hstops
  exact hstops.1.1

theorem Stops.question (h : Stops us) : us.head? ≠ some (.sign .question) :=
  fun ht => absurd (h _ ht) (by decide)

theorem Stops.paren (h : Stops us) : us.head? ≠ some (.sign .openParen) :=
  fun ht => absurd (h _ ht) (by decide)

end Stops

theorem finish_eq_done {stack : List Pending} {unclosed : Nat} {e e' : Node} {c : Cursor}
    (h : settle 0 stack e = ([], e')) : finish ⟨stack, unclosed, some e, c⟩ e = .done e' c := by
  simp only [finish, h]

/-- An expression does not start where neither an operand nor an operator in front of one stands. -/
theorem refuses_expressionAt {bound : Nat} {ts : List Token}
    (hunary : ∀ t, ts.head? = some t → t.unary? = none)
    (hoperand : ∀ t, ts.head? = some t → startsOperand t = false)
    (hparen : ts.head? ≠ some (.sign .openParen)) : Refuses (expressionAt (bound + 1)) ts := by
  intro c hc
  have hno := refuses_operand (expressionAt bound) bound hoperand c hc
  have hstep := step_missing [] 0 hunary hno hparen hc
  rw [expressionAt, chainAt_succ, Chain.start, run_of_step hstep (by simp)]
  rfl

/-- An expression is what the machine ends with, in at most as many steps as the bound allows. -/
theorem reads_expressionAt {bound : Nat} {ts us : List Token} {e : Node}
    (h : ∀ c, Stands c ts → ∃ n s c', n ≤ bound ∧
      Moves (Reader.operand (expressionAt bound) bound) n (Chain.start c) s ∧
      Chain.step (Reader.operand (expressionAt bound) bound) s = .done e c' ∧ Stands c' us) :
    Reads (expressionAt (bound + 1)) ts e us := by
  intro c hc
  obtain ⟨n, s, c', hn, hmoves, hstep, hus⟩ := h c hc
  refine ⟨c', ?_, hus⟩
  have hbound : bound + 1 = n + (bound - n + 1) := by omega
  have hrun : run (Reader.operand (expressionAt bound) bound) (bound + 1) (Chain.start c) =
      .done e c' := by
    rw [hbound, hmoves, run_of_step hstep (by simp)]
  rw [expressionAt, chainAt_succ, hrun]
  rfl

end Kestrel.Written
