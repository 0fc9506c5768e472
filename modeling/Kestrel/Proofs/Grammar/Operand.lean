import Kestrel.Proofs.Grammar.Parses
import Kestrel.Proofs.Grammar.Path
import Kestrel.Proofs.Reading.Chain

/-!
# Operands and the grammar

Operands are what the grammar lists as such (`parses_operand`), given that the expressions in them are
expressions. The one choice that first tokens do not decide is between a call and a name with a
parenthesis behind it. The reader takes the call, so what may follow a name must be such that its
parentheses can be arguments (`Absorbs`).
-/

namespace Kestrel.Written

open Reader

/-! ### Tokens -/

theorem scans_keyword (k : Keyword) : Scans (keyword k) (.keyword k) :=
  ⟨_, takes_keyword k, fun t => by simp⟩

theorem scans_symbol {s : Sign} (hs : s.isPlain = true) : Scans (symbol s.text) (.sign s) :=
  ⟨_, takes_symbol hs, fun t => by simp⟩

theorem scans_assignSign : Scans assignSign (.sign .assign) :=
  ⟨_, takes_assignSign, fun t => by simp⟩

theorem scans_identifier : Scans identifier .name :=
  ⟨_, takes_identifier, fun t => by cases t <;> simp [Token.name?, Token.terminal]⟩

theorem scans_integer : Scans integer .int :=
  ⟨_, takes_integer, fun t => by cases t <;> simp [Token.int?, Token.terminal]⟩

theorem scans_string : Scans string .string :=
  ⟨_, takes_string, fun t => by cases t <;> simp [Token.string?, Token.terminal]⟩

/-! ### What may follow an expression -/

/-- What follows either stops an expression, or goes on with another one, behind which the same may
follow. Taking more than one expression then does no harm. -/
def Ends (f : List Token → Prop) : Prop :=
  ∀ ts, f ts → Stops ts ∨ Followed (Completes .operand []) f ts

theorem stops_of_followed {a : Terminal} {γ : List Symbol} {f : List Token → Prop} {ts : List Token}
    (ha : ∀ t : Token, t.terminal = a → t.stops = true)
    (h : Followed (Derives (.token a :: γ)) f ts) : Stops ts := by
  obtain ⟨t, us, rfl, ht, -⟩ := followed_token_iff.mp h
  exact stops_cons (ha t ht) us

/-- A sign that is no part of an expression. -/
theorem ends_sign {s : Sign} (hs : (Token.sign s).stops = true) {γ : List Symbol}
    {f : List Token → Prop} : Ends (Followed (Derives ((s : Symbol) :: γ)) f) :=
  fun _ h => .inl (stops_of_followed (fun _ ht => Token.terminal_eq_sign.mp ht ▸ hs) h)

/-! ### Lists -/

/-- The rule reads expressions. -/
def ParsesExpr (n : Nat) (expression : Rule Node) : Prop :=
  ∀ f, Ends f → Parses n expression (Derives [Phrase.expr]) f

variable {n : Nat} {expression : Rule Node} {f : List Token → Prop}

theorem ParsesExpr.mono {n' : Nat} (h : ParsesExpr n expression) (hn : n' ≤ n) :
    ParsesExpr n' expression :=
  fun f hf => (h f hf).mono hn

section Lists

variable {α : Type} {element : Rule α} {s : Symbol} {x y : Phrase} {γ : List Symbol} {bound : Nat}

/-- Behind an element stands a comma or the closing parenthesis. -/
theorem ends_moreElements (hy : rules y = [[], [(Sign.comma : Symbol), s, (y : Symbol)]]) :
    Ends (Followed (Derives [.phrase y]) (Followed (Derives (Sign.closeParen :: γ)) f)) := by
  intro ts h
  obtain ⟨β, hβ, h⟩ := h.exists_rule
  rw [hy, List.mem_cons, List.mem_singleton] at hβ
  rcases hβ with rfl | rfl
  · exact .inl (stops_of_followed (fun _ ht => Token.terminal_eq_sign.mp ht ▸ rfl) (followed_nil_iff.mp h))
  · exact .inl (stops_of_followed (fun _ ht => Token.terminal_eq_sign.mp ht ▸ rfl) h)

/-- The elements behind the first one. -/
theorem parses_commaTail (hy : rules y = [[], [(Sign.comma : Symbol), s, (y : Symbol)]])
    (hbound : n < bound) (helement : ∀ f, Ends f → Parses n element (Derives [s]) f) :
    Parses n (commaTail element bound) (Derives [.phrase y])
      (Followed (Derives (Sign.closeParen :: γ)) f) := by
  refine Parses.many (γ := [(Sign.comma : Symbol), s]) hy ?_ hbound ?_ ?_
  · rintro _ h rfl
    cases h
  · rintro us vs h hf
    obtain ⟨t, us, rfl, ht, -⟩ := derives_token_iff.mp h
    obtain ⟨ht', -⟩ := followed_cons_iff.mp hf
    rw [ht] at ht'
    cases ht'
  · exact Parses.token (scans_symbol (s := .comma) rfl) fun _ => helement _ (ends_moreElements hy)

/-- A list between parentheses. -/
theorem parses_commaList (hx : rules x = [[], [s, (y : Symbol)]])
    (hy : rules y = [[], [(Sign.comma : Symbol), s, (y : Symbol)]]) (hbound : n < bound)
    (helement : ∀ f, Ends f → Parses n element (Derives [s]) f)
    (hstart : ∀ us, Derives [s] us → ∃ t ts, us = t :: ts ∧ t ≠ .sign .closeParen) :
    Parses n (commaList element bound) (Derives [.phrase x])
      (Followed (Derives (Sign.closeParen :: γ)) f) := by
  have hsome : Parses n (do
      let a ← element
      let as ← commaTail element bound
      pure (a :: as)) (Derives [s, .phrase y]) (Followed (Derives (Sign.closeParen :: γ)) f) := by
    refine (Parses.andThen (helement _ (ends_moreElements hy)) fun a => ?_).congr
      fun _ => (derives_append_iff (α := [s])).symm
    exact (parses_commaTail hy hbound helement).map
  refine (Parses.orElse hsome (Parses.pure []) fun us vs hus hf => ?_).congr fun us => ?_
  · obtain ⟨us, us', rfl, hus, -⟩ := derives_append_iff (α := [s]).mp hus
    obtain ⟨t, ts, rfl, ht⟩ := hstart us hus
    obtain ⟨ht', -⟩ := followed_cons_iff.mp (followed_nil_iff.mp hf)
    exact absurd (Token.terminal_eq_sign.mp ht') ht
  · rw [derives_rule_iff, hx]
    simp [or_comm]

end Lists

/-! ### First tokens -/

theorem exists_head_of_mem_operandRules {β : List Symbol} (h : β ∈ operandRules) :
    ∃ a δ, β = .token a :: δ ∧ ∀ t : Token, t.terminal = a → startsOperand t = true := by
  simp only [operandRules, List.mem_cons, List.not_mem_nil, or_false] at h
  rcases h with rfl | rfl | rfl | rfl | rfl | rfl | rfl | rfl | rfl | rfl <;>
    refine ⟨_, _, rfl, fun t ht => ?_⟩ <;> cases t <;> cases ht <;> rfl

theorem IsOperand.exists_head {us : List Token} (h : IsOperand us) :
    ∃ t ts, us = t :: ts ∧ startsOperand t = true := by
  obtain ⟨β, hβ, h⟩ := h
  obtain ⟨a, δ, rfl, hstart⟩ := exists_head_of_mem_operandRules hβ
  obtain ⟨t, ts, rfl, ht, -⟩ := derives_token_iff.mp h
  exact ⟨t, ts, rfl, hstart t ht⟩

theorem Completes.exists_head {σ : List Bracket} {us : List Token} (h : Completes .operand σ us) :
    ∃ t ts, us = t :: ts ∧ startsExpression t = true := by
  cases h with
  | unary op h => exact ⟨_, _, rfl, by cases op <;> rfl⟩
  | operand hus h =>
    obtain ⟨t, ts, rfl, ht⟩ := hus.exists_head
    exact ⟨t, _, rfl, by simp [startsExpression, ht]⟩
  | openParen h => exact ⟨_, _, rfl, rfl⟩

theorem exists_head_of_derives_expr {us : List Token} (h : Derives [Phrase.expr] us) :
    ∃ t ts, us = t :: ts ∧ startsExpression t = true :=
  (completes_of_derives h).exists_head

/-! ### Operands -/

/-- A parenthesis behind a name can be taken for arguments. -/
def Absorbs (f : List Token → Prop) : Prop :=
  ∀ us, f (.sign .openParen :: us) → Followed (Derives [Phrase.expr, Sign.closeParen]) f us

theorem parses_args (hexpr : ParsesExpr n expression) :
    Parses n (commaList expression (n + 1)) (Derives [Phrase.args])
      (Followed (Derives [Sign.closeParen]) f) := by
  refine parses_commaList rfl rfl (Nat.lt_succ_self n) hexpr fun us hus => ?_
  obtain ⟨t, ts, rfl, ht⟩ := exists_head_of_derives_expr hus
  refine ⟨t, ts, rfl, ?_⟩
  rintro rfl
  exact absurd ht (by decide)

/-- A call, or a name alone. -/
theorem parses_call_or_name (hexpr : ParsesExpr n expression) (hf : Absorbs f) :
    Parses (n + 1) (Rule.oneOf ((operandForms expression (n + 1)).drop 8))
      (fun us => ∃ β ∈ operandRules.drop 8, Derives β us) f := by
  have hcall : Parses (n + 1) (do
      let name ← identifier
      symbol "("
      let args ← commaList expression (n + 1)
      symbol ")"
      pure (Node.call name args))
      (Derives [.token .name, Sign.openParen, Phrase.args, Sign.closeParen]) f := by
    refine Parses.token_of_lt scans_identifier fun n' hn x => ?_
    refine Parses.token (scans_symbol (s := .openParen) rfl) fun _ => ?_
    refine Parses.bind ((parses_args hexpr).mono (Nat.le_of_lt_succ hn)) fun args => ?_
    exact Parses.token (scans_symbol (s := .closeParen) rfl) fun _ => Parses.pure _
  have hname : Parses (n + 1) (do let name ← identifier; pure (Node.var name))
      (Derives [.token .name]) f :=
    Parses.token scans_identifier fun x => Parses.pure _
  refine (Parses.orElse hcall hname.oneOf_singleton fun us vs hus hvar => ?_).congr
    (by simp [operandRules])
  -- the tokens are a call, so a parenthesis stands behind the name
  obtain ⟨t, us, rfl, ht, hus⟩ := derives_token_iff.mp hus
  obtain ⟨t', us, rfl, ht', hus⟩ := derives_token_iff.mp hus
  obtain ⟨-, hrest⟩ := followed_cons_iff.mp hvar
  rw [Token.terminal_eq_sign] at ht'
  subst ht'
  have habsorbs := followed_phrase_iff.mp (hf _ (followed_nil_iff.mp hrest))
  refine followed_token_iff.mpr ⟨_, _, rfl, ht, followed_token_iff.mpr ⟨_, _, rfl, rfl, ?_⟩⟩
  obtain ⟨xs, ys, hsplit, hxs, hys⟩ := habsorbs
  have hargs : Derives [Phrase.args] xs := by
    refine Derives.rule (show [_, _] ∈ rules .args from .tail _ (.head _)) ?_
    exact derives_phrase_iff.mpr ⟨xs, [], (List.append_nil xs).symm, hxs, Derives.rule (.head _) .nil⟩
  exact followed_phrase_iff.mpr ⟨xs, ys, hsplit, hargs, hys⟩

theorem parses_operand (hexpr : ParsesExpr n expression) (hf : Absorbs f) :
    Parses (n + 1) (operand expression (n + 1)) IsOperand f := by
  have hforms : List.Forall₂ (Form (n + 1) f) ((operandForms expression (n + 1)).take 8)
      (operandRules.take 8) := by
    have hkeyword (k : Keyword) (e : Node) :
        Form (n + 1) f (do keyword k; pure e) [(k : Symbol)] :=
      ⟨Parses.token (scans_keyword k) fun _ => Parses.pure e, _, _, rfl⟩
    have hfunction (k : Keyword) (g : Node → Node) :
        Form (n + 1) f (do keyword k; symbol "("; let e ← expression; symbol ")"; pure (g e))
          [k, Sign.openParen, Phrase.expr, Sign.closeParen] := by
      refine ⟨Parses.token_of_lt (scans_keyword k) fun n' hn _ => ?_, _, _, rfl⟩
      refine Parses.token (scans_symbol (s := .openParen) rfl) fun _ => ?_
      refine Parses.bind ((hexpr.mono (Nat.le_of_lt_succ hn)) _ (ends_sign rfl)) fun e => ?_
      exact Parses.token (scans_symbol (s := .closeParen) rfl) fun _ => Parses.pure _
    refine .cons ⟨Parses.token scans_integer fun _ => Parses.pure _, _, _, rfl⟩ ?_
    refine .cons ⟨Parses.token scans_string fun _ => Parses.pure _, _, _, rfl⟩ ?_
    refine .cons (hkeyword _ _) (.cons (hkeyword _ _) (.cons (hkeyword _ _) ?_))
    refine .cons (hfunction _ _) (.cons (hfunction _ _) (.cons ⟨?_, _, _, rfl⟩ .nil))
    refine Parses.token_of_lt (scans_keyword .split) fun n' hn _ => ?_
    have hexpr' : ParsesExpr n' expression := hexpr.mono (Nat.le_of_lt_succ hn)
    refine Parses.token (scans_symbol (s := .openParen) rfl) fun _ => ?_
    refine Parses.bind (hexpr' _ (ends_sign rfl)) fun s => ?_
    refine Parses.token (scans_symbol (s := .comma) rfl) fun _ => ?_
    refine Parses.bind (hexpr' _ (ends_sign rfl)) fun d => ?_
    exact Parses.token (scans_symbol (s := .closeParen) rfl) fun _ => Parses.pure _
  refine (Parses.oneOf hforms (parses_call_or_name hexpr hf) (by decide) ?_).congr fun us => ?_
  · rintro t us ht ⟨vs, ws, hsplit, ⟨β, hβ, hvs⟩, -⟩
    have hhead : β.head? = some (.token .name) := by
      simp only [operandRules, List.drop_succ_cons, List.drop_zero, List.mem_cons, List.not_mem_nil,
        or_false] at hβ
      rcases hβ with rfl | rfl <;> rfl
    obtain ⟨β, rfl⟩ := List.head?_eq_some_iff.mp hhead
    obtain ⟨t', vs, rfl, ht', -⟩ := derives_token_iff.mp hvs
    obtain ⟨rfl, -⟩ := List.cons.inj hsplit
    rw [ht'] at ht
    exact absurd ht (by decide)
  · constructor
    · rintro (⟨β, hβ, hus⟩ | ⟨β, hβ, hus⟩)
      · exact ⟨β, List.mem_of_mem_take hβ, hus⟩
      · exact ⟨β, List.mem_of_mem_drop hβ, hus⟩
    · rintro ⟨β, hβ, hus⟩
      rw [← List.take_append_drop 8 operandRules, List.mem_append] at hβ
      exact hβ.imp (⟨β, ·, hus⟩) (⟨β, ·, hus⟩)

/-- At the end of the text there is no operand. -/
theorem parses_operand_zero (bound : Nat) : Parses 0 (operand expression bound) IsOperand f := by
  intro c ts hc hts
  obtain rfl : ts = [] := List.eq_nil_of_length_eq_zero (Nat.le_zero.mp hts)
  refine .no (refuses_operand expression bound (by simp) c hc) ?_
  rintro ⟨us, vs, hsplit, hus, -⟩
  obtain ⟨t, ts, rfl, -⟩ := hus.exists_head
  cases hsplit

end Kestrel.Written
