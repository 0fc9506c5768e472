import Kestrel.Proofs.Joining.Zone
import Kestrel.Proofs.Lockstep.Token

/-!
# A text with more text behind it

A position in a text is compared with the same position where more text comes behind. That text is empty
or starts with a line feed, and in the second case the text before it is sealed. Then no token, blank or
comment goes on across its end, so the tokens up to there are the same.

* `Joins` — a text may come behind another one;
* `Extends` — a position, and the same one with more text behind;
* `Extends.of_rest`, `Extends.advance` — the position after blanks and comments, and after a token;
* `Joins.isPrefixOf_append`, `Joins.takeWhile_append` and others — what tokens look at is the same.
-/

namespace Kestrel.Reader

open Text

/-! ### Texts between quotes -/

/-- What comes after a text between quotes is sealed. -/
theorem SealedFrom.drop_quoted {cs raw : List Char} (h : SealedFrom .quoted cs)
    (hraw : quoted? cs = some raw) : Sealed (cs.drop (raw.length + 1)) := by
  fun_induction quoted? cs generalizing raw with
  | case1 | case2 | case5 => cases hraw
  | case3 c cs hline ih =>
    obtain ⟨raw, hraw', rfl⟩ := Option.map_eq_some_iff.mp hraw
    have htail : SealedFrom .quotedEscape (c :: cs) := h.tail_of_not_isSeal (by decide) rfl
    have hzone : zoneFrom .quotedEscape (c :: cs) = zoneFrom .quoted cs := rfl
    obtain rfl | htail' := htail.tail hzone
    · cases hraw'
    · exact ih htail' hraw'
  | case4 cs =>
    cases hraw
    exact h.tail_of_not_isSeal (by decide) rfl
  | case6 c cs hescape hquote hbad ih =>
    obtain ⟨raw, hraw', rfl⟩ := Option.map_eq_some_iff.mp hraw
    have hzone : zoneFrom .quoted (c :: cs) = zoneFrom .quoted cs := by
      rw [zoneFrom, if_neg hquote, if_neg fun hc => hbad (.inl hc)]
    obtain rfl | htail := h.tail hzone
    · cases hraw'
    · exact ih htail hraw'

/-! ### Texts behind one another -/

theorem not_isSeal_of_isPlain {c : Char} (h : isPlain c = true) : isSeal c = false := by
  simp only [isPlain, Bool.and_eq_true, decide_eq_true_eq] at h
  simp [isSeal, h.1.1.1.2, h.1.1.2]

/-- The text `t` may come behind `s`. -/
def Joins (s t : List Char) : Prop := t = [] ∨ Sealed s ∧ ∃ more, t = '\n' :: more

namespace Joins

variable {s t w : List Char} {c : Char}

theorem nil : Joins s [] := .inl rfl

/-! ### What is looked at -/

theorem ne_nil (h : Joins s t) (ht : t ≠ []) : s ≠ [] :=
  (h.resolve_left ht).1.ne_nil

theorem head?_append (h : Joins s t) : (s ++ t).head? = s.head? := by
  rcases h with rfl | ⟨hsealed, -⟩
  · rw [List.append_nil]
  · obtain ⟨c, cs, rfl⟩ := List.exists_cons_of_ne_nil hsealed.ne_nil
    rfl

/-- The same characters stand at the start, as long as those before the last one are no seals. -/
theorem isPrefixOf_append (h : Joins s t) (hw : w.dropLast.all (! isSeal ·)) :
    w.isPrefixOf (s ++ t) = w.isPrefixOf s := by
  rcases h with rfl | ⟨⟨hlast, -⟩, -⟩
  · rw [List.append_nil]
  · induction w generalizing s with
    | nil => rw [List.isPrefixOf_nil_left, List.isPrefixOf_nil_left]
    | cons x w ih =>
      cases s with
      | nil => cases hlast
      | cons y s =>
        rw [List.cons_append, List.isPrefixOf_cons_cons, List.isPrefixOf_cons_cons]
        cases w with
        | nil => rfl
        | cons x' w =>
          cases s with
          | nil =>
            -- the only character of the text is a seal, and `x` is none
            have hne : (x == y) = false := by
              rw [beq_eq_false_iff_ne]
              rintro rfl
              simp only [List.dropLast_cons_cons, List.all_cons, Bool.and_eq_true,
                Bool.not_eq_true'] at hw
              rw [List.getLast?_singleton, Option.any_some, hw.1] at hlast
              cases hlast
            rw [hne, Bool.false_and, Bool.false_and]
          | cons y' s =>
            simp only [List.dropLast_cons_cons, List.all_cons, Bool.and_eq_true] at hw
            rw [List.getLast?_cons_cons] at hlast
            rw [ih hw.2 hlast]

/-- A row of characters that are no seals ends in the text. -/
theorem takeWhile_append (h : Joins s t) {p : Char → Bool} (hp : ∀ c, p c = true → isSeal c = false) :
    (s ++ t).takeWhile p = s.takeWhile p := by
  rcases h with rfl | ⟨⟨hlast, -⟩, -⟩
  · rw [List.append_nil]
  · induction s with
    | nil => cases hlast
    | cons c s ih =>
      rw [List.cons_append, List.takeWhile_cons, List.takeWhile_cons]
      cases hc : p c with
      | false => rfl
      | true =>
        cases s with
        | nil =>
          rw [List.getLast?_singleton, Option.any_some, hp c hc] at hlast
          cases hlast
        | cons d s =>
          rw [List.getLast?_cons_cons] at hlast
          rw [if_pos rfl, if_pos rfl, ih hlast]

/-- A text between quotes ends in the same place, or nowhere: none goes on over a line feed. -/
theorem quoted?_append (h : Joins ('"' :: s) t) : quoted? (s ++ t) = quoted? s := by
  rcases h with rfl | ⟨-, more, rfl⟩
  · rw [List.append_nil]
  · fun_induction quoted? s with
    | case1 =>
      rw [List.nil_append, quoted?_cons (by decide)]
      rfl
    | case2 | case4 => rfl
    | case3 c cs hline ih => rw [List.cons_append, List.cons_append, quoted?, if_neg hline, ih]
    | case5 c cs hescape hquote hbad =>
      by_cases hc : c = '\\'
      · -- a backslash at the end of the text, which the line feed follows
        subst hc
        cases cs with
        | nil => rfl
        | cons d ds => exact (hescape d ds rfl rfl).elim
      · rw [List.cons_append, quoted?_cons hc, if_neg hquote, if_pos (hbad.resolve_left hc)]
    | case6 c cs hescape hquote hbad ih =>
      obtain ⟨hc, hline⟩ := not_or.mp hbad
      rw [List.cons_append, quoted?_cons hc, if_neg hquote, if_neg hline, ih]

/-! ### What is left -/

theorem tail {c : Char} (h : Joins (c :: s) t) (hseal : isSeal c = false) (hquote : c ≠ '"')
    (hcomment : startsComment (c :: s) = false) : Joins s t :=
  h.imp_right fun ⟨hsealed, ht⟩ =>
    ⟨hsealed.tail_of_not_isSeal hseal (zoneFrom_code hquote hcomment), ht⟩

theorem tail_of_isSeal {c : Char} (h : Joins (c :: s) t) (hseal : isSeal c = true) (hs : s ≠ []) :
    Joins s t := by
  refine h.imp_right fun ⟨hsealed, ht⟩ => ⟨?_, ht⟩
  have hquote : c ≠ '"' := by
    rintro rfl
    cases hseal
  have hslash : c ≠ '/' := by
    rintro rfl
    cases hseal
  exact (hsealed.tail (zoneFrom_code hquote (startsComment_of_ne hslash))).resolve_left hs

/-- Text may come behind what plain characters leave. -/
theorem drop (h : Joins s t) {n : Nat} (hplain : (s.take n).all isPlain) : Joins (s.drop n) t := by
  induction n generalizing s with
  | zero => exact h
  | succ n ih =>
    cases s with
    | nil => exact h
    | cons c s =>
      simp only [List.take_succ_cons, List.all_cons, Bool.and_eq_true] at hplain
      obtain ⟨hc, hs⟩ := hplain
      have hseal := not_isSeal_of_isPlain hc
      simp only [isPlain, Bool.and_eq_true, decide_eq_true_eq] at hc
      obtain ⟨⟨_, hquote⟩, hslash⟩ := hc
      exact ih (h.tail hseal hquote (startsComment_of_ne hslash)) hs

/-- Text may come behind what a word of plain characters leaves. -/
theorem drop_isPrefixOf (h : Joins s t) (hplain : w.all isPlain) (hw : w.isPrefixOf s) :
    w.length ≤ s.length ∧ Joins (s.drop w.length) t := by
  have hstarts := List.isPrefixOf_iff_prefix.mp hw
  refine ⟨hstarts.length_le, h.drop ?_⟩
  rwa [← List.prefix_iff_eq_take.mp hstarts]

/-- Text may come behind what a row of plain characters leaves. -/
theorem drop_takeWhile (h : Joins s t) {p : Char → Bool} (hplain : ∀ c, p c = true → isPlain c) :
    Joins (s.drop (s.takeWhile p).length) t := by
  refine h.drop ?_
  rw [← List.prefix_iff_eq_take.mp (List.takeWhile_prefix p), List.all_eq_true]
  intro c hc
  exact hplain c (List.all_eq_true.mp List.all_takeWhile c hc)

/-- Text may come behind what a text between quotes leaves. -/
theorem drop_quoted {raw : List Char} (h : Joins ('"' :: s) t) (hraw : quoted? s = some raw) :
    Joins (('"' :: s).drop (raw.length + 2)) t := by
  refine h.imp_right fun ⟨hsealed, ht⟩ => ⟨?_, ht⟩
  have hquoted : SealedFrom .quoted s := hsealed.tail_of_not_isSeal (by decide) rfl
  exact hquoted.drop_quoted hraw

end Joins

/-! ### Positions -/

/-- Behind the same characters there is still the same text behind the rest. -/
theorem advance_append {t : List Char} {c d : Cursor} {n : Nat} (hrest : d.rest = c.rest ++ t)
    (hword : d.before.any isWordChar = c.before.any isWordChar) (hn : n ≤ c.rest.length) :
    (d.advance n).rest = (c.advance n).rest ++ t ∧
      (d.advance n).before.any isWordChar = (c.advance n).before.any isWordChar := by
  rw [Cursor.advance, Cursor.advance, hrest]
  refine ⟨List.drop_append_of_le_length hn, ?_⟩
  rw [List.take_append_of_le_length hn]
  cases (c.rest.take n).getLast? with
  | none => exact hword
  | some x => rfl

/-- The position `d` is the position `c` with the text `t` behind the rest, blanks and comments left
aside. -/
structure Extends (t : List Char) (c d : Cursor) : Prop where
  /-- the rest -/
  rest : d.skip.rest = c.skip.rest ++ t
  /-- a word that starts here is cut off from what is in front of it, or it is not -/
  word : d.skip.before.any isWordChar = c.skip.before.any isWordChar
  /-- the text may stand there -/
  joins : Joins c.skip.rest t

namespace Extends

variable {t : List Char} {c d : Cursor}

/-- Blanks and comments are the same at both positions. -/
theorem of_rest (hrest : d.rest = c.rest ++ t)
    (hword : d.before.any isWordChar = c.before.any isWordChar) (hjoins : Joins c.rest t) :
    Extends t c d := by
  obtain ⟨hskip, hskipped⟩ := skipFrom_before .gap hword d.rest
  obtain rfl | ⟨hsealed, ht⟩ := hjoins
  · rw [List.append_nil] at hrest
    refine ⟨?_, ?_, .nil⟩
    · rw [Cursor.skip, hskip, hrest, List.append_nil]
      rfl
    · rw [Cursor.skip, hskipped, hrest]
      rfl
  · have hgap : SealedFrom Layout.gap.zone c.rest := hsealed
    obtain ⟨hrested, happend⟩ := hgap.skipFrom c.before
    rw [hrest, happend] at hskip hskipped
    refine ⟨?_, ?_, .inr ⟨hrested, ht⟩⟩
    · rw [Cursor.skip, hrest, hskip]
      rfl
    · rw [Cursor.skip, hrest, hskipped]
      rfl

/-- After the same characters, if what they leave allows for the text. -/
theorem advance (h : Extends t c d) {n : Nat} (hn : n ≤ c.skip.rest.length)
    (hjoins : Joins (c.skip.rest.drop n) t) : Extends t (c.skip.advance n) (d.skip.advance n) := by
  obtain ⟨hrest, hword⟩ := advance_append h.rest h.word hn
  exact of_rest hrest hword hjoins

end Extends

end Kestrel.Reader
