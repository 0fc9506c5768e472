import Kestrel.Proofs.Lockstep.Expression
import Kestrel.Reader.Statement

/-!
# Statements in step

A statement is built of tokens and expressions in a few fixed ways, so two texts that agree on the tokens
agree on the statements.

* `ProgramTokens` — all tokens are read in step;
* `conditionalWith` — a condition, given how to read the one after its `else`;
* `follows_block`, `follows_conditional` and others — the kinds of statement, given those inside them;
* `follows_statementAt` — statements.
-/

namespace Kestrel.Reader

variable {R : Cursor → Cursor → Prop}

/-- The signs that stand between expressions. -/
def statementSigns : List String := ["\x7b", "\x7d", "..", ";"]

/-- The tokens of programs are read in step. -/
structure ProgramTokens (R : Cursor → Cursor → Prop) : Prop extends ExpressionTokens R where
  /-- signs between expressions -/
  mark {s : String} (hs : s ∈ statementSigns) {c d : Cursor} (h : R c d) :
    Matches R (symbol s c) (symbol s d)
  /-- the sign of an assignment -/
  assignSign {c d : Cursor} (h : R c d) : Matches R (assignSign c) (assignSign d)

/-- A text is read like itself. -/
theorem programTokens_eq : ProgramTokens Eq where
  toExpressionTokens := expressionTokens_eq
  mark _ _ _ h := h ▸ .refl _
  assignSign h := h ▸ .refl _

/-- A condition with its branches, given how to read a condition that follows its `else`. -/
def conditionalWith (expression block other : Rule Node) : Rule Node := do
  keyword .if
  symbol "("
  let condition ← expression
  symbol ")"
  let yes ← block
  let no ← Rule.optional do
    keyword .else
    Rule.orElse other block
  pure (ifNode condition yes no)

theorem conditional_succ (expression block : Rule Node) (bound : Nat) :
    conditional expression block (bound + 1) =
      conditionalWith expression block (conditional expression block bound) := rfl

theorem follows_assignment (htokens : ExpressionTokens R)
    (hsign : Follows R Reader.assignSign Reader.assignSign) {expression expression' : Rule Node}
    (hexpression : Follows R expression expression') :
    Follows R (assignment expression) (assignment expression') :=
  (htokens.follows_keyword .let).optional.bind fun _ =>
    htokens.follows_identifier.bind fun name =>
      hsign.bind fun _ => hexpression.bind fun e => .pure (Node.assign name e)

section Statements

variable (htokens : ProgramTokens R) {expression expression' body body' : Rule Node} {n m : Nat}
include htokens

theorem ProgramTokens.follows_mark {s : String} (hs : s ∈ statementSigns) :
    Follows R (symbol s) (symbol s) :=
  .token (htokens.mark hs)

theorem follows_block {statement statement' : Rule Node} (hstatement : Follows R statement statement')
    (hnm : n ≤ m) : Follows R (block statement n) (block statement' m) :=
  (htokens.follows_mark (by decide)).bind fun _ =>
    (hstatement.many hnm).bind fun ns =>
      (htokens.follows_mark (by decide)).bind fun _ => .pure (Node.block ns)

theorem follows_declaration (hbody : Follows R body body') (hnm : n ≤ m) :
    Follows R (declaration body n) (declaration body' m) :=
  (htokens.follows_keyword .function).bind fun _ =>
    htokens.follows_identifier.bind fun name =>
      (htokens.follows_sign (by decide)).bind fun _ =>
        (htokens.follows_commaList htokens.follows_identifier hnm).bind fun params =>
          (htokens.follows_sign (by decide)).bind fun _ =>
            hbody.bind fun body => .pure (Node.declare name params body)

theorem follows_loop (hexpression : Follows R expression expression') (hbody : Follows R body body') :
    Follows R (loop expression body) (loop expression' body') :=
  (htokens.follows_keyword .for).bind fun _ =>
    (htokens.follows_sign (by decide)).bind fun _ =>
      htokens.follows_identifier.bind fun name =>
        (htokens.follows_keyword .in).bind fun _ =>
          hexpression.bind fun first =>
            (htokens.follows_mark (by decide)).bind fun _ =>
              hexpression.bind fun last =>
                (htokens.follows_sign (by decide)).bind fun _ =>
                  hbody.bind fun body => .pure (Node.forLoop name first last body)

theorem follows_conditionalWith {other other' : Rule Node}
    (hexpression : Follows R expression expression') (hbody : Follows R body body')
    (hother : Follows R other other') :
    Follows R (conditionalWith expression body other) (conditionalWith expression' body' other') :=
  (htokens.follows_keyword .if).bind fun _ =>
    (htokens.follows_sign (by decide)).bind fun _ =>
      hexpression.bind fun condition =>
        (htokens.follows_sign (by decide)).bind fun _ =>
          hbody.bind fun yes =>
            ((htokens.follows_keyword .else).bind fun _ => hother.orElse hbody).optional.bind
              fun other => .pure (ifNode condition yes other)

theorem follows_conditional (hexpression : Follows R expression expression')
    (hbody : Follows R body body') (hnm : n ≤ m) :
    Follows R (conditional expression body n) (conditional expression' body' m) := by
  induction n generalizing m with
  | zero => exact fun _ _ _ hrun => absurd rfl hrun
  | succ n ih =>
    obtain ⟨m, rfl, hle⟩ := exists_bound_of_le hnm
    exact follows_conditionalWith htokens hexpression hbody (ih hle)

theorem follows_simple (hexpression : Follows R expression expression') :
    Follows R (simple expression) (simple expression') :=
  ((follows_assignment htokens.toExpressionTokens (.token htokens.assignSign) hexpression).orElse
    hexpression).bind fun e =>
    ((htokens.follows_mark (by decide)).optional.bind fun _ => .pure ()).bind fun _ => .pure e

/-- A statement is the same at positions that belong together, also under a higher bound. -/
theorem follows_statementAt (hnm : n ≤ m) : Follows R (statementAt n) (statementAt m) := by
  induction n generalizing m with
  | zero => exact fun _ _ _ hrun => absurd rfl hrun
  | succ n ih =>
    obtain ⟨m, rfl, hle⟩ := exists_bound_of_le hnm
    have hexpression := follows_expressionAt htokens.toExpressionTokens hnm
    have hblock := follows_block htokens (ih hle) hnm
    exact .oneOf (.cons (follows_declaration htokens hblock hnm)
      (.cons (follows_loop htokens hexpression hblock)
      (.cons (follows_conditional htokens hexpression hblock hnm)
      (.cons hblock
      (.cons (follows_simple htokens hexpression) .nil)))))

end Statements

end Kestrel.Reader
