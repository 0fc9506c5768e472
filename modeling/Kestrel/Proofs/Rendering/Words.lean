import Kestrel.Proofs.Rendering.Literal
import Kestrel.Proofs.Written.Tabs

/-!
# The tokens of a program

Which tokens the text of an expression or a statement consists of. All of them can be written and none
contains a tab (`IsExpression.clean`, `IsStatement.clean`), so the text is read as these tokens. An
expression contains no sign of a statement (`IsExpression.inExpression`): it is taken for no other
statement, and no statement starts like a branch of the condition in front of it.
-/

namespace Kestrel.Written

open Reader Text

/-! ### Written without tabs -/

/-- The token can be written, without a tab. -/
def Clean (t : Token) : Prop :=
  t.valid = true ∧ '\t' ∉ t.spell

theorem clean_of_valid {t : Token} (h : t.valid = true) (htext : ∀ raw, t ≠ .string raw) : Clean t :=
  ⟨h, tab_not_mem_spell h htext⟩

theorem clean_keyword (k : Keyword) : Clean (.keyword k) :=
  clean_of_valid rfl (by simp)

theorem clean_sign (s : Sign) : Clean (.sign s) :=
  clean_of_valid rfl (by simp)

theorem clean_name {x : String} (hx : isName x.toList = true) : Clean (.name x) :=
  clean_of_valid hx (by simp)

theorem clean_int {n : Nat} (h : (Nat.toDigits 10 n).length ≤ 4300) :
    Clean (.int (Nat.toDigits 10 n)) :=
  clean_of_valid (valid_int h) (by simp)

theorem tab_not_mem_escaped (c : Char) : '\t' ∉ escaped c := by
  unfold escaped
  split
  · rename_i h
    rcases h with rfl | rfl <;> decide
  · split
    · decide
    · split
      · decide
      · split
        · decide
        · rename_i htab
          simpa using Ne.symm htab

theorem clean_textToken (s : String) : Clean (textToken s) := by
  refine ⟨valid_textToken s, fun htab => ?_⟩
  simp only [textToken, Token.spell, List.cons_append, List.mem_cons, List.mem_append,
    List.mem_flatMap, List.not_mem_nil, or_false] at htab
  rcases htab with htab | ⟨c, -, htab⟩ | htab
  · exact absurd htab (by decide)
  · exact tab_not_mem_escaped c htab
  · exact absurd htab (by decide)

/-! ### The tokens of expressions -/

/-- Tokens that occur in expressions. -/
def inExpression : Token → Bool
  | .keyword k => [.true, .false, .none, .print, .readFile, .split].contains k
  | .sign s => !([.assign, .semicolon, .range, .openBrace, .closeBrace] : List Sign).contains s
  | _ => true

/-- The token can be one of an expression. -/
def Inner (t : Token) : Prop :=
  Clean t ∧ inExpression t = true

theorem inner_keyword {k : Keyword} (h : inExpression (.keyword k) = true) : Inner (.keyword k) :=
  ⟨clean_keyword k, h⟩

theorem inner_sign {s : Sign} (h : inExpression (.sign s) = true) : Inner (.sign s) :=
  ⟨clean_sign s, h⟩

theorem forall_mem_parenthesized {p : Token → Prop} {ts : List Token} (hopen : p (.sign .openParen))
    (hclose : p (.sign .closeParen)) (h : ∀ t ∈ ts, p t) : ∀ t ∈ parenthesized ts, p t := by
  simp only [parenthesized, List.cons_append, List.forall_mem_cons, List.forall_mem_append]
  exact ⟨hopen, h, hclose, by simp⟩

theorem inner_parenthesized {ts : List Token} (h : ∀ t ∈ ts, Inner t) :
    ∀ t ∈ parenthesized ts, Inner t :=
  forall_mem_parenthesized (inner_sign rfl) (inner_sign rfl) h

theorem inner_within {ts : List Token} (h : ∀ t ∈ ts, Inner t) (least : Nat) (e : Node) :
    ∀ t ∈ within least e ts, Inner t := by
  unfold within
  split
  · exact inner_parenthesized h
  · exact h

theorem inner_morePhrases {es : List Node} (h : ∀ e ∈ es, ∀ t ∈ phrase e, Inner t) :
    ∀ t ∈ morePhrases es, Inner t := by
  induction es with
  | nil => simp [morePhrases]
  | cons e es ih =>
    obtain ⟨he, hes⟩ := List.forall_mem_cons.mp h
    simp only [morePhrases, List.forall_mem_cons, List.forall_mem_append]
    exact ⟨inner_sign rfl, he, ih hes⟩

theorem inner_phrases {es : List Node} (h : ∀ e ∈ es, ∀ t ∈ phrase e, Inner t) :
    ∀ t ∈ phrases es, Inner t := by
  cases es with
  | nil => simp [phrases]
  | cons e es =>
    obtain ⟨he, hes⟩ := List.forall_mem_cons.mp h
    simp only [phrases, List.forall_mem_append]
    exact ⟨he, inner_morePhrases hes⟩

theorem IsExpression.inner {e : Node} (h : IsExpression e) : ∀ t ∈ phrase e, Inner t := by
  induction h with
  | int h =>
    simp only [phrase, List.forall_mem_singleton]
    exact ⟨clean_int h, rfl⟩
  | @str s h | @template s h =>
    simp only [phrase, List.forall_mem_singleton]
    exact ⟨clean_textToken s, rfl⟩
  | bool b =>
    simp only [phrase, List.forall_mem_singleton]
    cases b <;> exact inner_keyword rfl
  | none =>
    simp only [phrase, List.forall_mem_singleton]
    exact inner_keyword rfl
  | var hx =>
    simp only [phrase, List.forall_mem_singleton]
    exact ⟨clean_name hx, rfl⟩
  | binary op hl hr ihl ihr =>
    simp only [phrase, List.forall_mem_append, List.forall_mem_cons]
    exact ⟨inner_within ihl _ _, inner_sign rfl, inner_within ihr _ _⟩
  | unary op he ih =>
    simp only [phrase, List.forall_mem_cons]
    exact ⟨inner_sign (by cases op <;> rfl), inner_within ih _ _⟩
  | choice hc ht hf ihc iht ihf =>
    simp only [phrase, List.forall_mem_append, List.forall_mem_cons]
    exact ⟨inner_within ihc _ _, inner_sign rfl, iht, inner_sign rfl, ihf⟩
  | call hx hargs ih =>
    simp only [phrase, List.forall_mem_cons]
    exact ⟨⟨clean_name hx, rfl⟩, inner_parenthesized (inner_phrases ih)⟩
  | print he ih | read he ih =>
    simp only [phrase, List.forall_mem_cons]
    exact ⟨inner_keyword rfl, inner_parenthesized ih⟩
  | split hs hd ihs ihd =>
    simp only [phrase, List.forall_mem_cons]
    refine ⟨inner_keyword rfl, inner_parenthesized ?_⟩
    simp only [List.forall_mem_append, List.forall_mem_cons]
    exact ⟨ihs, inner_sign rfl, ihd⟩

/-- An expression has a first token. -/
theorem IsExpression.phrase_ne_nil {e : Node} (h : IsExpression e) : phrase e ≠ [] := by
  cases h <;> simp [phrase]

theorem IsExpression.sentence_eq {e : Node} (h : IsExpression e) :
    sentence e = phrase e ++ [.sign .semicolon] := by
  cases h <;> simp [sentence]

/-! ### The tokens of statements -/

theorem clean_nameTokens {names : List String} (h : ∀ x ∈ names, isName x.toList = true) :
    ∀ t ∈ nameTokens names, Clean t := by
  cases names with
  | nil => simp [nameTokens]
  | cons x xs =>
    obtain ⟨hx, hxs⟩ := List.forall_mem_cons.mp h
    simp only [nameTokens, List.forall_mem_cons]
    refine ⟨clean_name hx, fun t ht => ?_⟩
    obtain ⟨y, hy, ht⟩ := List.mem_flatMap.mp ht
    simp only [List.mem_cons, List.not_mem_nil, or_false] at ht
    rcases ht with rfl | rfl
    · exact clean_sign .comma
    · exact clean_name (hxs y hy)

theorem clean_parenthesized {ts : List Token} (h : ∀ t ∈ ts, Clean t) :
    ∀ t ∈ parenthesized ts, Clean t :=
  forall_mem_parenthesized (clean_sign _) (clean_sign _) h

theorem clean_braced {ts : List Token} (h : ∀ t ∈ ts, Clean t) : ∀ t ∈ braced ts, Clean t := by
  simp only [braced, List.cons_append, List.forall_mem_cons, List.forall_mem_append]
  exact ⟨clean_sign _, h, clean_sign _, by simp⟩

theorem clean_sentences {ns : List Node} (h : ∀ n ∈ ns, ∀ t ∈ sentence n, Clean t) :
    ∀ t ∈ sentences ns, Clean t := by
  induction ns with
  | nil => simp [sentences]
  | cons n ns ih =>
    obtain ⟨hn, hns⟩ := List.forall_mem_cons.mp h
    simp only [sentences, List.forall_mem_append]
    exact ⟨hn, ih hns⟩

theorem IsExpression.clean {e : Node} (h : IsExpression e) : ∀ t ∈ phrase e, Clean t :=
  fun t ht => (h.inner t ht).1

theorem IsStatement.clean {n : Node} (h : IsStatement n) : ∀ t ∈ sentence n, Clean t := by
  induction h with
  | expression he =>
    simp only [he.sentence_eq, List.forall_mem_append, List.forall_mem_singleton]
    exact ⟨he.clean, clean_sign _⟩
  | assign hx he =>
    simp only [sentence, List.forall_mem_cons, List.forall_mem_append]
    exact ⟨clean_name hx, clean_sign _, he.clean, clean_sign _, by simp⟩
  | block hns ih => exact clean_braced (clean_sentences ih)
  | declare hx hparams hns ih =>
    simp only [sentence, List.forall_mem_cons, List.forall_mem_append]
    exact ⟨clean_keyword _, clean_name hx, clean_parenthesized (clean_nameTokens hparams),
      clean_braced (clean_sentences ih)⟩
  | forLoop hx hfirst hlast hns ih =>
    simp only [sentence, List.forall_mem_cons, List.forall_mem_append]
    refine ⟨clean_keyword _, clean_parenthesized ?_, clean_braced (clean_sentences ih)⟩
    simp only [List.forall_mem_cons, List.forall_mem_append]
    exact ⟨clean_name hx, clean_keyword _, hfirst.clean, clean_sign _, hlast.clean⟩
  | @ifElse c yes no hc hyes hno ihyes ihno =>
    simp only [sentence, List.forall_mem_cons, List.forall_mem_append]
    refine ⟨clean_keyword _, clean_parenthesized hc.clean, clean_braced (clean_sentences ihyes), ?_⟩
    cases no with
    | nil => simp [elseSentence, elseSentences]
    | cons n ns =>
      obtain ⟨hn, hns⟩ := List.forall_mem_cons.mp ihno
      simp only [elseSentence, elseSentences, List.forall_mem_cons]
      refine ⟨clean_keyword _, ?_⟩
      split
      · exact hn
      · exact clean_braced (List.forall_mem_append.mpr ⟨hn, clean_sentences hns⟩)

end Kestrel.Written
