import Kestrel.Proofs.Joining.Extends
import Kestrel.Proofs.Lockstep.Statement
import Kestrel.Proofs.Lockstep.Token

/-!
# Tokens with more text behind them

No rule for a token looks past the end of a sealed text, so each of them gives the same outcome with more
text behind. Semicolons and closing braces are the exception only in that the text may end with them.

* `sameLook_extends` — a text looks the same to the rules for tokens with more text behind;
* `expressionTokens_extends` — so the tokens of expressions are the same;
* `Goes`, `goes_symbol` — what comes after a semicolon or a closing brace.
-/

namespace Kestrel.Reader

open Text

variable {t : List Char} {c d : Cursor}

/-! ### What tokens look at -/

/-- The same plain characters stand at both positions. -/
theorem Extends.isPrefixOf (h : Extends t c d) {w : List Char}
    (hplain : w.all isPlain) : w.isPrefixOf d.skip.rest = w.isPrefixOf c.skip.rest := by
  rw [h.rest]
  refine h.joins.isPrefixOf_append (List.all_eq_true.mpr fun x hx => ?_)
  rw [not_isSeal_of_isPlain (List.all_eq_true.mp hplain x (List.dropLast_subset w hx))]
  rfl

theorem Extends.advance_word (h : Extends t c d) {w : List Char} (hplain : w.all isPlain)
    (hw : w.isPrefixOf c.skip.rest) :
    Extends t (c.skip.advance w.length) (d.skip.advance w.length) := by
  obtain ⟨hlength, hjoins⟩ := h.joins.drop_isPrefixOf hplain hw
  exact h.advance hlength hjoins

/-- The same keywords stand at both positions. -/
theorem Extends.keywordAt (h : Extends t c d) (k : Keyword) :
    keywordAt k d.skip = keywordAt k c.skip := by
  rw [Reader.keywordAt, Reader.keywordAt, h.isPrefixOf (isPlain_keyword k), h.word]
  cases hk : k.text.toList.isPrefixOf c.skip.rest with
  | false => rfl
  | true =>
    obtain ⟨hlength, hjoins⟩ := h.joins.drop_isPrefixOf (isPlain_keyword k) hk
    rw [h.rest, List.drop_append_of_le_length hlength, hjoins.head?_append]

/-- A slash that begins no comment may have more text behind it. -/
theorem Extends.drop_slash (h : Extends t c d)
    (hslash : "/".toList.isPrefixOf c.skip.rest) :
    1 ≤ c.skip.rest.length ∧ Joins (c.skip.rest.drop 1) t := by
  obtain ⟨s, hs⟩ := List.isPrefixOf_iff_prefix.mp hslash
  have hrest : c.skip.rest = '/' :: s := hs.symm
  have hcomment := startsComment_skipFrom .gap c.before c.rest
  have hjoins := h.joins
  rw [← Cursor.skip, hrest] at hcomment
  rw [hrest] at hjoins ⊢
  exact ⟨Nat.succ_pos _, hjoins.tail (by decide) (by decide) hcomment⟩

theorem Extends.matches_string (h : Extends t c d) : Matches (Extends t) (string c) (string d) := by
  have hjoins := h.joins
  by_cases hquote : c.skip.rest.head? = some '"'
  · obtain ⟨cs, hrest⟩ := List.head?_eq_some_iff.mp hquote
    have hrest' := h.rest
    rw [hrest] at hjoins hrest'
    rw [string_eq hrest, string_eq hrest', List.append_eq, hjoins.quoted?_append]
    split
    next raw hraw =>
      have hlength := length_of_quoted? hraw
      have hdrop := hjoins.drop_quoted hraw
      rw [← hrest] at hdrop
      refine .ok _ (h.advance ?_ hdrop)
      rw [hrest, List.length_cons]
      omega
    next => exact .no
  · rw [string_eq_no hquote, string_eq_no]
    · exact .no
    · rwa [h.rest, hjoins.head?_append]

/-- The texts look the same up to the end of the shorter one. -/
theorem sameLook_extends (t : List Char) : SameLook (Extends t) where
  isPrefixOf h _ hw := h.isPrefixOf hw
  advance_word h _ hw _ hstarts := h.advance_word hw hstarts
  takeWhile {c d} h p hp := by
    rw [h.rest]
    exact h.joins.takeWhile_append fun x hx => not_isSeal_of_isPlain (hp x hx)
  advance_row h _ hp _ :=
    h.advance (List.takeWhile_prefix _).length_le (h.joins.drop_takeWhile hp)
  keywordAt h k := h.keywordAt k
  slash {c d} h := by
    rw [h.rest]
    exact h.joins.isPrefixOf_append (by decide)
  advance_slash h hstarts := by
    obtain ⟨hlength, hjoins⟩ := h.drop_slash hstarts
    exact h.advance hlength hjoins
  string h := h.matches_string

/-! ### Tokens -/

/-- Expressions are made of tokens that are the same with more text behind. -/
theorem expressionTokens_extends (t : List Char) : ExpressionTokens (Extends t) :=
  (sameLook_extends t).expressionTokens

theorem matches_keyword (k : Keyword) (h : Extends t c d) :
    Matches (Extends t) (keyword k c) (keyword k d) :=
  (sameLook_extends t).matches_keyword h k

theorem matches_symbol {s : String} (hs : s.toList.all isPlain) (hne : s.toList ≠ [])
    (h : Extends t c d) : Matches (Extends t) (symbol s c) (symbol s d) :=
  (sameLook_extends t).matches_symbol h hs hne

theorem matches_assignSign (h : Extends t c d) :
    Matches (Extends t) (assignSign c) (assignSign d) :=
  (sameLook_extends t).matches_assignSign h

theorem follows_keyword (k : Keyword) : Follows (Extends t) (keyword k) (keyword k) :=
  .token (matches_keyword k)

theorem follows_identifier : Follows (Extends t) identifier identifier :=
  (expressionTokens_extends t).follows_identifier

theorem follows_symbol {s : String} (hs : s.toList.all isPlain) (hne : s.toList ≠ []) :
    Follows (Extends t) (symbol s) (symbol s) :=
  .token (matches_symbol hs hne)

/-! ### The end of a text -/

/-- The position `d` is the position `c` with the text `t` behind, or the text before `t` has ended and
`d` is the start of `t`. -/
def Goes (t : List Char) (c d : Cursor) : Prop :=
  Extends t c d ∨ t ≠ [] ∧ c.rest = [] ∧ d.rest = t

/-- A semicolon or a closing brace is read at both positions or at none. -/
theorem goes_symbol {s : String} {x : Char} (hs : s.toList = [x]) (hx : isSeal x)
    (h : Extends t c d) :
    (symbol s c = .no ∧ symbol s d = .no) ∨
      ∃ c' d', symbol s c = .ok () c' ∧ symbol s d = .ok () d' ∧ Goes t c' d' := by
  have hstarts : [x].isPrefixOf d.skip.rest = [x].isPrefixOf c.skip.rest := by
    rw [h.rest]
    exact h.joins.isPrefixOf_append rfl
  rw [symbol, symbol, hs, hstarts]
  split
  next hseal =>
    obtain ⟨s', hs'⟩ := List.isPrefixOf_iff_prefix.mp hseal
    have hrest : c.skip.rest = x :: s' := hs'.symm
    have hjoins := h.joins
    have hlength : 1 ≤ c.skip.rest.length := by
      rw [hrest]
      exact Nat.succ_pos _
    refine .inr ⟨_, _, rfl, rfl, ?_⟩
    by_cases ht : t = []
    · exact .inl (h.advance hlength (.inl ht))
    by_cases hend : s' = []
    · refine .inr ⟨ht, ?_, ?_⟩
      · rw [Cursor.advance, hrest, hend]
        rfl
      · rw [Cursor.advance, h.rest, hrest, hend]
        rfl
    · refine .inl (h.advance hlength ?_)
      rw [hrest] at hjoins ⊢
      exact hjoins.tail_of_isSeal hx hend
  next => exact .inl ⟨rfl, rfl⟩

end Kestrel.Reader
