import Kestrel.Proofs.Literals.Yields

/-!
# The texts in an expression

The machine for expressions keeps the order of its operands: what waits on the stack was read before the
current operand, and what lies deeper was read before what lies above. So the texts in its state, from the
bottom of the stack up, and those from its position on stay the same from step to step.

* `Pending.literals`, `stackLiterals`, `literals_settle` — the texts on the stack, and its completion;
* `Chain.State.texts`, `Chain.holds_step`, `Chain.holds_run` — the machine;
* `yields_operand`, `yields_expressionAt` — operands and expressions.
-/

namespace Kestrel.Reader

/-! ### The stack -/

/-- The texts in what waits for an operand. -/
def Pending.literals : Pending → List Node
  | unary _ | paren => []
  | binary _ e | condition e => e.literals
  | otherwise c t => c.literals ++ t.literals

/-- The texts in all that waits, the innermost last. -/
def stackLiterals : List Pending → List Node
  | [] => []
  | p :: stack => stackLiterals stack ++ p.literals

/-- What is completed keeps its texts in their order. -/
theorem literals_settle (level : Nat) (stack : List Pending) (e : Node) :
    stackLiterals (settle level stack e).1 ++ (settle level stack e).2.literals =
      stackLiterals stack ++ e.literals := by
  induction stack generalizing e with
  | nil => rfl
  | cons p stack ih =>
    cases p with
    | unary op =>
      rw [settle]
      split
      · rw [ih]
        simp [stackLiterals, Pending.literals]
      · rfl
    | binary op l =>
      rw [settle]
      split
      · rw [ih]
        simp [stackLiterals, Pending.literals]
      · rfl
    | otherwise c t =>
      rw [settle]
      split
      · rw [ih]
        simp [stackLiterals, Pending.literals]
      · rfl
    | condition c => rfl
    | paren => rfl

/-! ### The machine -/

namespace Chain

variable {operand : Rule Node} {s : State} {e : Node}

/-- The texts in a state, and behind them those from its position on. -/
def State.texts (s : State) : List Node :=
  stackLiterals s.stack ++ (s.current.elim [] Node.literals ++ quotedNodes s.cursor.rest)

/-- The texts are those in what a step leads to, and behind it. -/
def Next.Holds (texts : List Node) : Next → Prop
  | .more s => s.texts = texts
  | .done e c => e.literals ++ quotedNodes c.rest = texts
  | .failed _ _ | .halt _ => True

/-- A token without texts leaves the texts behind it. -/
theorem quotedNodes_of_silent {α : Type} {p : Rule α} {a : α} {c c' : Cursor} (hp : p.Silent)
    (ha : p c = .ok a c') : quotedNodes c'.rest = quotedNodes c.rest := by
  rw [quotedNodes, quotedNodes, hp ha]

theorem holds_stepOperand (hoperand : operand.Yields [] Node.literals) (hs : s.current = none) :
    (stepOperand operand s).Holds s.texts := by
  rw [State.texts, hs, stepOperand]
  split
  next op c hop =>
    have hsilent := quotedNodes_of_silent silent_unaryOp hop
    simp [Next.Holds, State.texts, stackLiterals, Pending.literals, hsilent, hs]
  next =>
    split
    next e c he =>
      have hyields := hoperand he
      simp only [List.nil_append] at hyields
      simp [Next.Holds, State.texts, hyields]
    next => exact True.intro
    next =>
      split
      next c hopen =>
        have hsilent := quotedNodes_of_silent (silent_symbol (by decide)) hopen
        simp [Next.Holds, State.texts, stackLiterals, Pending.literals, hsilent, hs]
      next => exact True.intro

/-- The texts of a state with the operand `e`. -/
theorem State.texts_of_current (he : s.current = some e) :
    s.texts = (stackLiterals s.stack ++ e.literals) ++ quotedNodes s.cursor.rest := by
  rw [State.texts, he, List.append_assoc]
  rfl

theorem holds_finish (he : s.current = some e) : (finish s e).Holds s.texts := by
  have hsettle := literals_settle 0 s.stack e
  rw [finish]
  split
  next e' heq =>
    rw [heq] at hsettle
    rw [Next.Holds, State.texts_of_current he, ← hsettle]
    rfl
  next => exact True.intro

theorem texts_close (s : State) (e : Node) (c : Cursor) :
    (close s e c).texts = (stackLiterals s.stack ++ e.literals) ++ quotedNodes c.rest := by
  have hsettle := literals_settle 0 s.stack e
  rw [close]
  split
  next stack e' heq =>
    rw [heq] at hsettle
    rw [← hsettle]
    simp [State.texts, stackLiterals, Pending.literals]
  next stack e' _ heq =>
    rw [heq] at hsettle
    rw [← hsettle]
    simp [State.texts]

theorem holds_stepInfix (he : s.current = some e) : (stepInfix s e).Holds s.texts := by
  rw [stepInfix]
  split
  next op c hop =>
    have hsilent := quotedNodes_of_silent silent_binaryOp hop
    rw [State.texts_of_current he, ← literals_settle (op.level - 1), ← hsilent]
    simp [Next.Holds, State.texts, stackLiterals, Pending.literals]
  next =>
    split
    next c hquestion =>
      have hsilent := quotedNodes_of_silent (silent_symbol (by decide)) hquestion
      rw [State.texts_of_current he, ← literals_settle choiceLevel, ← hsilent]
      simp [Next.Holds, State.texts, stackLiterals, Pending.literals]
    next => exact holds_finish he

theorem holds_stepOperator (he : s.current = some e) : (stepOperator s e).Holds s.texts := by
  rw [stepOperator_eq]
  split
  next c hclose =>
    split at hclose
    · cases hclose
    · have hsilent := quotedNodes_of_silent (silent_symbol (by decide)) hclose
      rw [Next.Holds, texts_close, hsilent, State.texts_of_current he]
  next =>
    split
    next c cond stack e' hcolon heq =>
      have hsilent := quotedNodes_of_silent (silent_symbol (by decide)) hcolon
      have hsettle := literals_settle 0 s.stack e
      rw [heq] at hsettle
      rw [State.texts_of_current he, ← hsettle, ← hsilent]
      simp [Next.Holds, State.texts, stackLiterals, Pending.literals]
    next => exact holds_stepInfix he

theorem holds_step (hoperand : operand.Yields [] Node.literals) (s : State) :
    (step operand s).Holds s.texts := by
  rw [step]
  split
  next hs => exact holds_stepOperand hoperand hs
  next e he => exact holds_stepOperator he

/-- The texts stay the same through a run. -/
theorem holds_run (hoperand : operand.Yields [] Node.literals) (bound : Nat) (s : State) :
    (run operand bound s).Holds s.texts := by
  induction bound generalizing s with
  | zero => exact True.intro
  | succ bound ih =>
    have hstep := holds_step hoperand s
    rw [run]
    split
    next s' heq =>
      rw [heq] at hstep
      rw [← hstep]
      exact ih s'
    next => exact hstep

end Chain

/-! ### Operands and expressions -/

section

variable {expression : Rule Node} (h : expression.Yields [] Node.literals)
include h

/-- A built-in function of one argument holds the texts of the argument. -/
theorem yields_parenthesized {f : Node → Node} (hf : ∀ e, (f e).literals = e.literals) (k : Keyword) :
    Rule.Yields []
      (do keyword k; symbol "("; let e ← expression; symbol ")"; pure (f e)) Node.literals := by
  refine (silent_keyword k).bind fun _ => (silent_symbol (by decide)).bind fun _ => ?_
  refine h.bind fun e => (silent_symbol (by decide)).bind fun _ => .pure ?_
  rw [hf]
  rfl

theorem yields_operand (bound : Nat) : (operand expression bound).Yields [] Node.literals := by
  have hkeyword (k : Keyword) {e : Node} (he : e.literals = []) :
      Rule.Yields [] (do keyword k; pure e) Node.literals :=
    (silent_keyword k).bind fun _ => .pure he.symm
  refine .oneOf fun p hp => ?_
  rw [operandForms] at hp
  simp only [List.mem_cons, List.not_mem_nil, or_false] at hp
  -- the literals, then the built-in functions, calls and names
  rcases hp with rfl | rfl | rfl | rfl | rfl | rfl | rfl | rfl | rfl | rfl
  · exact silent_integer.bind fun n => .pure (Node.literals_of_leaf rfl rfl).symm
  · exact yields_string.bind fun s => .pure (literals_stringNode s).symm
  · exact hkeyword .true (Node.literals_of_leaf rfl rfl)
  · exact hkeyword .false (Node.literals_of_leaf rfl rfl)
  · exact hkeyword .none (Node.literals_of_leaf rfl rfl)
  · exact yields_parenthesized h Node.literals_print .print
  · exact yields_parenthesized h Node.literals_read .readFile
  · refine (silent_keyword _).bind fun _ => (silent_symbol (by decide)).bind fun _ => ?_
    refine h.bind fun s => (silent_symbol (by decide)).bind fun _ => ?_
    refine h.bind fun d => (silent_symbol (by decide)).bind fun _ => .pure ?_
    rw [Node.literals_split, List.nil_append]
  · refine silent_identifier.bind fun x => (silent_symbol (by decide)).bind fun _ => ?_
    refine (h.commaList bound).bind fun args => (silent_symbol (by decide)).bind fun _ => .pure ?_
    rw [Node.literals_call, List.nil_append]
  · exact silent_identifier.bind fun x => .pure (Node.literals_of_leaf rfl rfl).symm

end

/-- An expression holds the texts that are written in it. -/
theorem yields_expressionAt (bound : Nat) : (expressionAt bound).Yields [] Node.literals := by
  induction bound with
  | zero => exact nofun
  | succ bound ih =>
    intro c e c' he
    have hrun := Chain.holds_run (yields_operand ih bound) (bound + 1) (Chain.start c)
    rw [expressionAt, chainAt_succ, Chain.Next.toParsed.eq_def] at he
    split at he
    next heq =>
      cases he
      rw [heq] at hrun
      exact hrun.symm
    all_goals cases he

end Kestrel.Reader
