import Kestrel.Proofs.Grammar.Basic

/-!
# Expressions without precedence

Whether tokens are an expression does not depend on how tight the operators bind, and can be followed
from left to right: after an operator an operand must come, and after an operand an operator, or the
end. `Completes` says so, with the parentheses and the conditions that are still open.

* `completes_of_derives` — an expression of the grammar can be followed in this way;
* `derives_of_completes` — and what can be followed is one.

The second half has to find the outermost operators again. `Completes.split` cuts the tokens where the
innermost open bracket closes, and `derives_snoc` adds an operator with its right operand to a row of
operands, whatever its tier.
-/

namespace Kestrel.Written

open Reader

/-! ### Open brackets -/

/-- What can be open within an expression. -/
inductive Bracket where
  /-- a parenthesis -/
  | paren
  /-- a condition whose colon is still to come -/
  | condition
  deriving DecidableEq, Repr

/-- The sign that closes a bracket. -/
def Bracket.close : Bracket → Sign
  | paren => .closeParen
  | condition => .colon

/-- What must come next. -/
inductive Mode where
  /-- an operand -/
  | operand
  /-- an operator, or the end -/
  | operator
  deriving DecidableEq, Repr

/-- What must come next once a bracket is closed. -/
def Bracket.mode : Bracket → Mode
  | paren => .operator
  | condition => .operand

/-- The tokens are one of the operands that the grammar lists. -/
def IsOperand (ts : List Token) : Prop :=
  ∃ β ∈ operandRules, Derives β ts

/-- With these brackets open, the innermost first, the tokens complete an expression. -/
inductive Completes : Mode → List Bracket → List Token → Prop where
  | done : Completes .operator [] []
  | unary (op : UnaryOp) {σ : List Bracket} {us : List Token} (h : Completes .operand σ us) :
    Completes .operand σ (.sign (unarySign op) :: us)
  | operand {σ : List Bracket} {us vs : List Token} (hus : IsOperand us)
    (h : Completes .operator σ vs) : Completes .operand σ (us ++ vs)
  | openParen {σ : List Bracket} {us : List Token} (h : Completes .operand (.paren :: σ) us) :
    Completes .operand σ (.sign .openParen :: us)
  | binary (op : BinaryOp) {σ : List Bracket} {us : List Token} (h : Completes .operand σ us) :
    Completes .operator σ (.sign (.binary op) :: us)
  | question {σ : List Bracket} {us : List Token} (h : Completes .operand (.condition :: σ) us) :
    Completes .operator σ (.sign .question :: us)
  | close (b : Bracket) {σ : List Bracket} {us : List Token} (h : Completes b.mode σ us) :
    Completes .operator (b :: σ) (.sign b.close :: us)

/-- A parenthesis or a condition is closed somewhere. -/
theorem Completes.split {m : Mode} {τ σ : List Bracket} {b : Bracket} {ts : List Token}
    (h : Completes m (τ ++ b :: σ) ts) :
    ∃ us vs, ts = us ++ .sign b.close :: vs ∧ Completes m τ us ∧ Completes b.mode σ vs := by
  generalize hopen : τ ++ b :: σ = ρ at h
  induction h generalizing τ with
  | done => exact absurd hopen (by simp)
  | unary op h ih =>
    obtain ⟨us, vs, rfl, hus, hvs⟩ := ih hopen
    exact ⟨_, vs, rfl, .unary op hus, hvs⟩
  | operand hus h ih =>
    obtain ⟨us, vs, rfl, hus', hvs⟩ := ih hopen
    exact ⟨_, vs, (List.append_assoc ..).symm, .operand hus hus', hvs⟩
  | @openParen ρ ts h ih =>
    obtain ⟨us, vs, rfl, hus, hvs⟩ := @ih (.paren :: τ) (by rw [← hopen]; rfl)
    exact ⟨_, vs, rfl, .openParen hus, hvs⟩
  | binary op h ih =>
    obtain ⟨us, vs, rfl, hus, hvs⟩ := ih hopen
    exact ⟨_, vs, rfl, .binary op hus, hvs⟩
  | @question ρ ts h ih =>
    obtain ⟨us, vs, rfl, hus, hvs⟩ := @ih (.condition :: τ) (by rw [← hopen]; rfl)
    exact ⟨_, vs, rfl, .question hus, hvs⟩
  | close c h ih =>
    cases τ with
    | nil =>
      obtain ⟨rfl, rfl⟩ := List.cons.inj hopen
      exact ⟨[], _, rfl, .done, h⟩
    | cons d τ =>
      obtain ⟨rfl, hrest⟩ := List.cons.inj hopen
      obtain ⟨us, vs, rfl, hus, hvs⟩ := ih hrest
      exact ⟨_, vs, rfl, .close d hus, hvs⟩

/-! ### From the grammar -/

/-- The place in an expression that a kind of token leads to, if it is no operand. -/
inductive Leads : Terminal → Mode × List Bracket → Mode × List Bracket → Prop where
  | unary (op : UnaryOp) (σ : List Bracket) :
    Leads (.sign (unarySign op)) (.operand, σ) (.operand, σ)
  | openParen (σ : List Bracket) : Leads (.sign .openParen) (.operand, σ) (.operand, .paren :: σ)
  | binary (op : BinaryOp) (σ : List Bracket) :
    Leads (.sign (.binary op)) (.operator, σ) (.operand, σ)
  | question (σ : List Bracket) :
    Leads (.sign .question) (.operator, σ) (.operand, .condition :: σ)
  | close (b : Bracket) (σ : List Bracket) : Leads (.sign b.close) (.operator, b :: σ) (b.mode, σ)

theorem Leads.completes {a : Terminal} {p q : Mode × List Bracket} (h : Leads a p q) {t : Token}
    (ht : t.terminal = a) {us : List Token} (hus : Completes q.1 q.2 us) :
    Completes p.1 p.2 (t :: us) := by
  cases h <;> rw [Token.terminal_eq_sign] at ht <;> subst ht
  case unary op σ => exact .unary op hus
  case openParen σ => exact .openParen hus
  case binary op σ => exact .binary op hus
  case question σ => exact .question hus
  case close b σ => exact .close b hus

/-- The phrases that can stand for an operand. -/
def Phrase.isOperand : Phrase → Bool
  | expr | tier _ | unary | primary => true
  | _ => false

/-- A rule of an expression, followed from one place to another. -/
inductive Follows : List Symbol → Mode × List Bracket → Mode × List Bracket → Prop where
  | nil (p : Mode × List Bracket) : Follows [] p p
  | token {a : Terminal} {α : List Symbol} {p q r : Mode × List Bracket} (h : Leads a p q)
    (hα : Follows α q r) : Follows (.token a :: α) p r
  | phrase {x : Phrase} {α : List Symbol} {σ : List Bracket} {r : Mode × List Bracket}
    (hx : x.isOperand = true) (hα : Follows α (.operator, σ) r) :
    Follows (.phrase x :: α) (.operand, σ) r

/-- A rule of an expression is one for operands, or leads from an operand that must come to one that
has come. -/
theorem follows_of_mem_rules {x : Phrase} (hx : x.isOperand = true) {β : List Symbol}
    (hβ : β ∈ rules x) (σ : List Bracket) :
    β ∈ operandRules ∨ Follows β (.operand, σ) (.operator, σ) := by
  have hphrase : ∀ y : Phrase, y.isOperand = true → Follows [.phrase y] (.operand, σ) (.operator, σ) :=
    fun y hy => .phrase hy (.nil _)
  cases x with
  | expr =>
    simp only [rules, List.mem_cons, List.not_mem_nil, or_false] at hβ
    rcases hβ with rfl | rfl
    · exact .inr (hphrase _ rfl)
    · refine .inr (.phrase rfl (.token (.question σ) (.phrase rfl ?_)))
      exact .token (.close .condition σ) (hphrase _ rfl)
  | tier row =>
    simp only [rules] at hβ
    split at hβ
    · simp only [List.mem_cons, List.mem_map] at hβ
      rcases hβ with rfl | ⟨op, -, rfl⟩
      · exact .inr (hphrase _ rfl)
      · exact .inr (.phrase rfl (.token (.binary op σ) (hphrase _ rfl)))
    · simp only [List.mem_cons, List.not_mem_nil, or_false] at hβ
      subst hβ
      exact .inr (hphrase _ rfl)
  | unary =>
    simp only [rules, List.mem_cons, List.not_mem_nil, or_false] at hβ
    rcases hβ with rfl | rfl | rfl
    · exact .inr (hphrase _ rfl)
    · exact .inr (.token (.unary .neg σ) (hphrase _ rfl))
    · exact .inr (.token (.unary .not σ) (hphrase _ rfl))
  | primary =>
    rcases List.mem_cons.mp hβ with rfl | hβ
    · exact .inr (.token (.openParen σ) (.phrase rfl (.token (.close .paren σ) (.nil _))))
    · exact .inl hβ
  | _ => exact absurd hx (by simp [Phrase.isOperand])

/-- What derives from a rule is followed as the rule is. -/
theorem Derives.completes {α : List Symbol} {us : List Token} (h : Derives α us)
    {p q : Mode × List Bracket} (hα : Follows α p q) {vs : List Token} (hvs : Completes q.1 q.2 vs) :
    Completes p.1 p.2 (us ++ vs) := by
  induction h generalizing p q vs with
  | nil =>
    cases hα
    exact hvs
  | token ht hus ih =>
    cases hα with
    | token hlead hα => exact hlead.completes ht (ih hα hvs)
  | @phrase x β α us us' hβ hus hus' ih ih' =>
    cases hα with
    | @phrase _ _ σ _ hx hα =>
      rw [List.append_assoc]
      have hrest := ih' hα hvs
      rcases follows_of_mem_rules hx hβ σ with hoperand | hfollows
      · exact .operand ⟨β, hoperand, hus⟩ hrest
      · exact ih hfollows hrest

theorem completes_of_derives {us : List Token} (h : Derives [Phrase.expr] us) :
    Completes .operand [] us := by
  have hcompletes := h.completes (.phrase rfl (.nil (.operator, []))) .done
  rwa [List.append_nil] at hcompletes

/-! ### Back to the grammar -/

/-- The row of an operator in the table. -/
theorem exists_mem_row (op : BinaryOp) :
    ∃ (row : Nat) (ops : List BinaryOp), precedence[row]? = some ops ∧ op ∈ ops := by
  cases op
  case or => exact ⟨0, _, rfl, by decide⟩
  case and => exact ⟨1, _, rfl, by decide⟩
  case greater | less | equal | atLeast => exact ⟨2, _, rfl, by decide⟩
  case concat => exact ⟨3, _, rfl, by decide⟩
  case add | sub => exact ⟨4, _, rfl, by decide⟩
  case mul | div => exact ⟨5, _, rfl, by decide⟩

theorem derives_tier_of_succ {row : Nat} {ops : List BinaryOp} (hops : precedence[row]? = some ops)
    {us : List Token} (h : Derives [Phrase.tier (row + 1)] us) : Derives [Phrase.tier row] us :=
  h.rule (by simp [rules, hops])

/-- A unary expression is one of every tier. -/
theorem derives_tier_of_unary {us : List Token} (h : Derives [Phrase.unary] us) (row : Nat) :
    Derives [Phrase.tier row] us := by
  by_cases hrow : row < precedence.length
  · have hops : precedence[row]? = some precedence[row] := List.getElem?_eq_getElem hrow
    exact derives_tier_of_succ hops (derives_tier_of_unary h (row + 1))
  · have hops : precedence[row]? = none := List.getElem?_eq_none (Nat.le_of_not_lt hrow)
    exact h.rule (by simp [rules, hops])
termination_by precedence.length - row

theorem derives_binary {row : Nat} {ops : List BinaryOp} {op : BinaryOp}
    (hops : precedence[row]? = some ops) (hop : op ∈ ops) {us vs : List Token}
    (hus : Derives [Phrase.tier row] us) (hvs : Derives [Phrase.tier (row + 1)] vs) :
    Derives [Phrase.tier row] (us ++ .sign (.binary op) :: vs) := by
  have hmem : ([Phrase.tier row, Sign.binary op, Phrase.tier (row + 1)] : List Symbol) ∈
      rules (.tier row) := by
    rw [rules, hops]
    exact List.mem_cons_of_mem _ (List.mem_map_of_mem hop)
  refine Derives.rule hmem (derives_phrase_iff.mpr ⟨us, _, rfl, hus, ?_⟩)
  exact .token rfl hvs

/-- An operator and its right operand can be added to a row of operands. The operator takes a part of
the row as its left operand, the last operand at least. -/
theorem derives_snoc {row : Nat} {ops : List BinaryOp} {op : BinaryOp}
    (hops : precedence[row]? = some ops) (hop : op ∈ ops) {i : Nat} (hi : i ≤ row)
    {us vs : List Token} (hus : Derives [Phrase.tier i] us) (hvs : Derives [Phrase.unary] vs) :
    Derives [Phrase.tier i] (us ++ .sign (.binary op) :: vs) := by
  rcases Nat.eq_or_lt_of_le hi with rfl | hlt
  · exact derives_binary hops hop hus (derives_tier_of_unary hvs _)
  · have hrow : row < precedence.length := (List.getElem?_eq_some_iff.mp hops).1
    have hi' : precedence[i]? = some precedence[i] := List.getElem?_eq_getElem (Nat.lt_trans hlt hrow)
    obtain ⟨β, hβ, hus⟩ := hus.exists_rule
    simp only [rules, hi', List.mem_cons, List.mem_map] at hβ
    rcases hβ with rfl | ⟨op', hop', rfl⟩
    · exact derives_tier_of_succ hi' (derives_snoc hops hop hlt hus hvs)
    · -- the operator belongs to the right operand of a looser one
      obtain ⟨us₁, _, rfl, hus₁, hrest⟩ := derives_phrase_iff.mp hus
      obtain ⟨t, us₂, rfl, ht, hus₂⟩ := derives_token_iff.mp hrest
      rw [Token.terminal_eq_sign] at ht
      subst ht
      rw [List.append_assoc, List.cons_append]
      exact derives_binary hi' hop' hus₁ (derives_snoc hops hop hlt hus₂ hvs)
termination_by row - i

/-- The first operand, with the operators in front of it. -/
theorem Completes.exists_unary {us : List Token} (h : Completes .operand [] us)
    (ih : ∀ vs : List Token, vs.length < us.length → Completes .operand [] vs →
      Derives [Phrase.expr] vs) :
    ∃ vs ws, us = vs ++ ws ∧ vs ≠ [] ∧ Derives [Phrase.unary] vs ∧ Completes .operator [] ws := by
  generalize hm : Mode.operand = m at h
  generalize hσ : ([] : List Bracket) = σ at h
  induction h with
  | done => cases hm
  | unary op h ih' =>
    subst hσ
    obtain ⟨vs, ws, rfl, -, hvs, hws⟩ := ih' (fun us hus => ih us (Nat.lt_succ_of_lt hus)) hm rfl
    refine ⟨_ :: vs, ws, rfl, by simp, ?_, hws⟩
    cases op with
    | neg =>
      exact Derives.rule (show [_, _] ∈ rules .unary from .tail _ (.head _)) (.token rfl hvs)
    | not =>
      exact Derives.rule (show [_, _] ∈ rules .unary from .tail _ (.tail _ (.head _))) (.token rfl hvs)
  | @operand σ vs ws hvs h ih' =>
    subst hσ
    obtain ⟨β, hβ, hvs⟩ := hvs
    have hprimary : Derives [Phrase.primary] vs := hvs.rule (.tail _ hβ)
    refine ⟨vs, ws, rfl, ?_, hprimary.rule (.head _), h⟩
    -- each rule for an operand has at least one token
    rintro rfl
    simp only [operandRules, List.mem_cons, List.not_mem_nil, or_false] at hβ
    rcases hβ with rfl | rfl | rfl | rfl | rfl | rfl | rfl | rfl | rfl | rfl <;> cases hvs
  | @openParen σ vs h ih' =>
    subst hσ
    -- up to the closing parenthesis there are fewer tokens, which are an expression by `ih`
    obtain ⟨xs, ys, rfl, hxs, hys⟩ := Completes.split (τ := []) h
    have hexpr : Derives [Phrase.expr] xs := by
      refine ih xs ?_ hxs
      simp only [List.length_cons, List.length_append]
      omega
    have hparen : Derives [Sign.openParen, Phrase.expr, Sign.closeParen]
        (.sign .openParen :: (xs ++ [.sign .closeParen])) :=
      .token rfl (derives_phrase_iff.mpr ⟨xs, _, rfl, hexpr, .token rfl .nil⟩)
    have hprimary : Derives [Phrase.primary] _ := hparen.rule (.head _)
    exact ⟨_, ys, by simp [Bracket.close], by simp, hprimary.rule (.head _), hys⟩
  | binary op h ih' => cases hm
  | question h ih' => cases hm
  | close b h ih' => cases hσ

/-- What completes an expression behind operands makes one together with them, if shorter rows of
tokens are expressions where they should be. -/
theorem derives_append {us vs : List Token} (hus : Derives [Phrase.tier 0] us)
    (h : Completes .operator [] vs) (ih : ∀ xs : List Token, xs.length < vs.length →
      Completes .operand [] xs → Derives [Phrase.expr] xs) : Derives [Phrase.expr] (us ++ vs) := by
  induction hn : vs.length using Nat.strongRecOn generalizing us vs with
  | _ n ihn =>
    subst hn
    cases h with
    | done =>
      rw [List.append_nil]
      exact hus.rule (.head _)
    | @binary op _ vs h =>
      obtain ⟨xs, ys, rfl, hne, hxs, hys⟩ :=
        h.exists_unary fun zs hzs => ih zs (Nat.lt_succ_of_lt hzs)
      obtain ⟨row, ops, hops, hop⟩ := exists_mem_row op
      -- the row of operands grows by one, and the rest is shorter
      have hmore := derives_snoc hops hop (Nat.zero_le row) hus hxs
      have hlength : ys.length < (Token.sign (.binary op) :: (xs ++ ys)).length := by
        simp only [List.length_cons, List.length_append]
        omega
      have hexpr := ihn ys.length hlength hmore hys (fun zs hzs => ih zs (by omega)) rfl
      rwa [List.append_assoc, List.cons_append] at hexpr
    | question h =>
      -- the operands so far are the condition, and both branches are shorter
      obtain ⟨xs, ys, rfl, hxs, hys⟩ := Completes.split (τ := []) h
      simp only [List.length_cons, List.length_append] at ih
      have hyes : Derives [Phrase.expr] xs := ih xs (by omega) hxs
      have hno : Derives [Phrase.expr] ys := ih ys (by omega) hys
      have hbranches : Derives [Phrase.expr, Sign.colon, Phrase.expr] (xs ++ .sign .colon :: ys) :=
        derives_phrase_iff.mpr ⟨xs, _, rfl, hyes, .token rfl hno⟩
      refine Derives.rule (show [_, _, _, _, _] ∈ rules .expr from .tail _ (.head _)) ?_
      exact derives_phrase_iff.mpr ⟨us, _, rfl, hus, .token rfl hbranches⟩

/-- What completes an expression is one. -/
theorem derives_of_completes {us : List Token} (h : Completes .operand [] us) :
    Derives [Phrase.expr] us := by
  induction hn : us.length using Nat.strongRecOn generalizing us with
  | _ n ihn =>
    subst hn
    have ih : ∀ xs : List Token, xs.length < us.length → Completes .operand [] xs →
        Derives [Phrase.expr] xs := fun xs hxs hx => ihn xs.length hxs hx rfl
    obtain ⟨vs, ws, rfl, hne, hvs, hws⟩ := h.exists_unary ih
    have hpos : 0 < vs.length := List.length_pos_iff.mpr hne
    simp only [List.length_append] at ih
    exact derives_append (derives_tier_of_unary hvs 0) hws fun xs hxs => ih xs (by omega)

end Kestrel.Written
