import Kestrel.Proofs.Lockstep.Basic

/-!
# Expressions in step

The machine for expressions looks at a text through tokens alone. So if two texts agree on the tokens, it
goes through the same states on both.

* `ExpressionTokens` — the tokens of expressions are read in step;
* `Chain.Next.Matches`, `Chain.matches_step`, `Chain.matches_run` — a step of the machine, and all of
  them;
* `follows_operand`, `follows_expressionAt` — operands and expressions.
-/

namespace Kestrel.Reader

variable {α : Type} {R : Cursor → Cursor → Prop} {c d : Cursor}

/-- The signs in expressions that are no operators with a value of their own. -/
def expressionSigns : List String := ["(", ")", ",", "?", ":"]

/-- The tokens of expressions are read in step. -/
structure ExpressionTokens (R : Cursor → Cursor → Prop) : Prop where
  /-- keywords -/
  keyword (k : Keyword) {c d : Cursor} (h : R c d) : Matches R (keyword k c) (keyword k d)
  /-- names -/
  identifier {c d : Cursor} (h : R c d) : Matches R (identifier c) (identifier d)
  /-- signs -/
  sign {s : String} (hs : s ∈ expressionSigns) {c d : Cursor} (h : R c d) :
    Matches R (symbol s c) (symbol s d)
  /-- operators in front of operands -/
  unaryOp {c d : Cursor} (h : R c d) : Matches R (unaryOp c) (unaryOp d)
  /-- operators between operands -/
  binaryOp {c d : Cursor} (h : R c d) : Matches R (binaryOp c) (binaryOp d)
  /-- integers -/
  integer {c d : Cursor} (h : R c d) : Matches R (integer c) (integer d)
  /-- texts -/
  string {c d : Cursor} (h : R c d) : Matches R (string c) (string d)

/-- A text is read like itself. -/
theorem expressionTokens_eq : ExpressionTokens Eq where
  keyword _ _ _ h := h ▸ .refl _
  identifier h := h ▸ .refl _
  sign _ _ _ h := h ▸ .refl _
  unaryOp h := h ▸ .refl _
  binaryOp h := h ▸ .refl _
  integer h := h ▸ .refl _
  string h := h ▸ .refl _

namespace ExpressionTokens

variable (h : ExpressionTokens R)
include h

theorem follows_keyword (k : Keyword) : Follows R (Reader.keyword k) (Reader.keyword k) :=
  .token (h.keyword k)

theorem follows_identifier : Follows R Reader.identifier Reader.identifier :=
  .token h.identifier

theorem follows_sign {s : String} (hs : s ∈ expressionSigns) : Follows R (symbol s) (symbol s) :=
  .token (h.sign hs)

theorem follows_commaList {p q : Rule α} (hp : Follows R p q) {n m : Nat} (hnm : n ≤ m) :
    Follows R (commaList p n) (commaList q m) := by
  have htail : Follows R (commaTail p n) (commaTail q m) :=
    .many (.bind (h.follows_sign (s := ",") (by decide)) fun _ => hp) hnm
  exact (hp.bind fun a => htail.bind fun as => .pure (a :: as)).orElse (.pure [])

end ExpressionTokens

/-! ### The machine -/

namespace Chain

/-- The same outcome of a step. Where there is no expression, the place that is reported may differ. -/
inductive Next.Matches (R : Cursor → Cursor → Prop) : Next → Next → Prop where
  /-- the same state, but for the position -/
  | more (s : State) {d : Cursor} (h : R s.cursor d) :
    Matches R (.more s) (.more { s with cursor := d })
  /-- the same expression -/
  | done (e : Node) {c d : Cursor} (h : R c d) : Matches R (.done e c) (.done e d)
  /-- no expression in both cases -/
  | failed (problem : Problem) (rest rest' : List Char) :
    Matches R (.failed problem rest) (.failed problem rest')
  /-- both end the reading -/
  | halt (reason : Halt) : Matches R (.halt reason) (.halt reason)

variable {p q : Rule Node} {s : State}

theorem matches_stepOperand (htokens : ExpressionTokens R) (hp : Follows R p q) (h : R s.cursor d)
    (hrun : stepOperand p s ≠ .halt .exhausted) :
    Next.Matches R (stepOperand p s) (stepOperand q { s with cursor := d }) := by
  have hunary := htokens.unaryOp h
  have hopen := htokens.sign (s := "(") (by decide) h
  have hoperand := hp s.cursor d h
  rw [stepOperand] at hrun
  rw [stepOperand, stepOperand]
  dsimp only
  generalize unaryOp s.cursor = r at hrun hunary ⊢
  generalize unaryOp d = r' at hunary ⊢
  generalize symbol "(" s.cursor = ropen at hrun hopen ⊢
  generalize symbol "(" d = ropen' at hopen ⊢
  generalize p s.cursor = roperand at hrun hoperand ⊢
  generalize q d = roperand' at hoperand ⊢
  cases hunary with
  | ok op h' => exact .more _ h'
  | no | halt =>
    have hexhausted : roperand ≠ .halt .exhausted := by
      rintro rfl
      exact hrun rfl
    cases hoperand hexhausted with
    | ok e h' => exact .more _ h'
    | halt reason => exact .halt reason
    | no =>
      cases hopen with
      | ok _ h' => exact .more _ h'
      | no | halt => exact .failed _ _ _

/-- The end of an expression. -/
theorem matches_finish (h : R s.cursor d) (e : Node) :
    Next.Matches R (finish s e) (finish { s with cursor := d } e) := by
  rw [finish, finish]
  dsimp only
  split
  · exact .done _ h
  · exact .failed _ _ _

/-- A step after an operand where no parenthesis is closed and no colon follows a condition. -/
def stepInfix (s : State) (e : Node) : Next :=
  match binaryOp s.cursor with
  | .ok op c =>
    let (stack, e) := settle (op.level - 1) s.stack e
    .more ⟨.binary op e :: stack, s.unclosed, none, c⟩
  | _ =>
    match symbol "?" s.cursor with
    | .ok _ c =>
      let (stack, e) := settle choiceLevel s.stack e
      .more ⟨.condition e :: stack, s.unclosed, none, c⟩
    | _ => finish s e

theorem stepOperator_eq (s : State) (e : Node) :
    stepOperator s e =
      match (if s.unclosed = 0 then .no else symbol ")" s.cursor) with
      | .ok _ c => .more (close s e c)
      | _ =>
        match symbol ":" s.cursor, settle 0 s.stack e with
        | .ok _ c, (.condition cond :: stack, e) =>
          .more ⟨.otherwise cond e :: stack, s.unclosed, none, c⟩
        | _, _ => stepInfix s e := rfl

theorem matches_stepInfix (htokens : ExpressionTokens R) (h : R s.cursor d) (e : Node) :
    Next.Matches R (stepInfix s e) (stepInfix { s with cursor := d } e) := by
  have hbinary := htokens.binaryOp h
  have hquestion := htokens.sign (s := "?") (by decide) h
  have hfinish := matches_finish h e
  rw [stepInfix, stepInfix]
  dsimp only
  generalize binaryOp s.cursor = r at hbinary ⊢
  generalize binaryOp d = r' at hbinary ⊢
  generalize symbol "?" s.cursor = rquestion at hquestion ⊢
  generalize symbol "?" d = rquestion' at hquestion ⊢
  cases hbinary with
  | ok op h' => exact .more ⟨_, _, _, _⟩ h'
  | no | halt =>
    cases hquestion with
    | ok _ h' => exact .more ⟨_, _, _, _⟩ h'
    | no | halt => exact hfinish

theorem matches_close (e : Node) (h : R c d) :
    Next.Matches R (.more (close s e c)) (.more (close { s with cursor := d } e d)) := by
  rw [close, close]
  dsimp only
  split <;> exact .more ⟨_, _, _, _⟩ h

theorem matches_stepOperator (htokens : ExpressionTokens R) (h : R s.cursor d) (e : Node) :
    Next.Matches R (stepOperator s e) (stepOperator { s with cursor := d } e) := by
  have hparen : Reader.Matches R (if s.unclosed = 0 then .no else symbol ")" s.cursor)
      (if s.unclosed = 0 then .no else symbol ")" d) := by
    split
    · exact .no
    · exact htokens.sign (by decide) h
  have hcolon := htokens.sign (s := ":") (by decide) h
  have hinfix := matches_stepInfix htokens h e
  rw [stepOperator_eq, stepOperator_eq]
  dsimp only
  generalize (if s.unclosed = 0 then .no else symbol ")" s.cursor) = r at hparen ⊢
  generalize (if s.unclosed = 0 then .no else symbol ")" d) = r' at hparen ⊢
  generalize symbol ":" s.cursor = rcolon at hcolon ⊢
  generalize symbol ":" d = rcolon' at hcolon ⊢
  cases hparen with
  | ok _ h' => exact matches_close e h'
  | no | halt =>
    cases hcolon with
    | ok _ h' =>
      obtain ⟨stack, e'⟩ := settle 0 s.stack e
      rcases stack with _ | ⟨_ | _ | _ | _ | _, stack⟩
      case cons.condition => exact .more ⟨_, _, _, _⟩ h'
      all_goals exact hinfix
    | no | halt => exact hinfix

theorem matches_step (htokens : ExpressionTokens R) (hp : Follows R p q) (h : R s.cursor d)
    (hrun : step p s ≠ .halt .exhausted) :
    Next.Matches R (step p s) (step q { s with cursor := d }) := by
  obtain ⟨stack, unclosed, current, c⟩ := s
  cases current with
  | none => exact matches_stepOperand htokens hp h hrun
  | some e => exact matches_stepOperator htokens h e

/-- The machine goes through the same states, also with a higher bound. -/
theorem matches_run (htokens : ExpressionTokens R) (hp : Follows R p q) {n m : Nat} (hnm : n ≤ m)
    (h : R s.cursor d) (hrun : run p n s ≠ .halt .exhausted) :
    Next.Matches R (run p n s) (run q m { s with cursor := d }) := by
  induction n generalizing m s d with
  | zero => exact absurd rfl hrun
  | succ n ih =>
    obtain ⟨m, rfl, hle⟩ := exists_bound_of_le hnm
    have hfirst : step p s ≠ .halt .exhausted := by
      intro hfirst
      rw [run, hfirst] at hrun
      exact hrun rfl
    have hmatch := matches_step htokens hp h hfirst
    rw [run] at hrun
    rw [run, run]
    generalize step p s = next at hrun hmatch ⊢
    generalize step q { s with cursor := d } = next' at hmatch ⊢
    cases hmatch with
    | more s' h' => exact ih hle h' hrun
    | done e h' => exact .done e h'
    | failed problem rest rest' => exact .failed problem rest rest'
    | halt reason => exact .halt reason

theorem Next.Matches.toParsed {next next' : Next} (h : Next.Matches R next next') :
    Reader.Matches R next.toParsed next'.toParsed := by
  cases h with
  | more | failed => exact .no
  | done e h' => exact .ok e h'
  | halt reason => exact .halt reason

/-- Two runs of the machine as rules. -/
theorem follows_run (htokens : ExpressionTokens R) (hp : Follows R p q) {n m : Nat} (hnm : n ≤ m) :
    Follows R (fun c => (run p n (start c)).toParsed) (fun c => (run q m (start c)).toParsed) := by
  intro c d h hrun
  have hchain : run p n (start c) ≠ .halt .exhausted :=
    fun hchain => hrun (congrArg Next.toParsed hchain)
  exact (matches_run htokens hp hnm (s := start c) h hchain).toParsed

end Chain

/-! ### Operands and expressions -/

section Expressions

variable (htokens : ExpressionTokens R)
include htokens

theorem follows_operand {expression expression' : Rule Node} {n m : Nat}
    (h : Follows R expression expression') (hnm : n ≤ m) :
    Follows R (operand expression n) (operand expression' m) := by
  refine .oneOf (.cons ?int (.cons ?string (.cons ?true (.cons ?false (.cons ?none (.cons ?print
    (.cons ?read (.cons ?split (.cons ?call (.cons ?name .nil))))))))))
  case int => exact .bind (.token htokens.integer) fun _ => .pure _
  case string => exact .bind (.token htokens.string) fun _ => .pure _
  case «true» | «false» | none => exact .bind (htokens.follows_keyword _) fun _ => .pure _
  case print | read =>
    exact .bind (htokens.follows_keyword _) fun _ =>
      .bind (htokens.follows_sign (by decide)) fun _ =>
        h.bind fun _ => .bind (htokens.follows_sign (by decide)) fun _ => .pure _
  case split =>
    exact .bind (htokens.follows_keyword _) fun _ =>
      .bind (htokens.follows_sign (by decide)) fun _ =>
        h.bind fun _ => .bind (htokens.follows_sign (by decide)) fun _ =>
          h.bind fun _ => .bind (htokens.follows_sign (by decide)) fun _ => .pure _
  case call =>
    exact .bind htokens.follows_identifier fun _ =>
      .bind (htokens.follows_sign (by decide)) fun _ =>
        (htokens.follows_commaList h hnm).bind fun _ =>
          .bind (htokens.follows_sign (by decide)) fun _ => .pure _
  case name => exact .bind htokens.follows_identifier fun _ => .pure _

/-- An expression is the same at positions that belong together, also under a higher bound. -/
theorem follows_expressionAt {n m : Nat} (hnm : n ≤ m) :
    Follows R (expressionAt n) (expressionAt m) := by
  induction n generalizing m with
  | zero => exact fun _ _ _ hrun => absurd rfl hrun
  | succ n ih =>
    obtain ⟨m, rfl, hle⟩ := exists_bound_of_le hnm
    exact Chain.follows_run htokens (follows_operand htokens (ih hle) hle) hnm

end Expressions

end Kestrel.Reader
