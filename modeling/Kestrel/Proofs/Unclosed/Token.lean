import Kestrel.Proofs.Joining.Extends

/-!
# A text without its last brace

A position in a text is compared with the same position in the text that has one more closing brace at its
end. The brace is not in a comment, so it is a token of its own. Then all that can be different is this last
token.

* `Clips` — a position, and the same one with the brace at the end;
* `Clips.of_rest`, `Clips.advance` — the position after blanks and comments, and after a token;
* `sameLook_clips` — a text looks the same to the rules for tokens with the brace and without it;
* `clips_symbol` — a semicolon or a closing brace is the same in both texts, or it is the last brace.
-/

namespace Kestrel.Reader

open Text

/-! ### One more character at the end -/

section Concat

variable {s w : List Char} {z : Char}

theorem isPrefixOf_concat (hz : z ∉ w) : w.isPrefixOf (s ++ [z]) = w.isPrefixOf s := by
  rw [Bool.eq_iff_iff, List.isPrefixOf_iff_prefix, List.isPrefixOf_iff_prefix, List.prefix_concat_iff,
    or_iff_right]
  rintro rfl
  exact hz (List.mem_append_right s (List.mem_singleton_self z))

theorem head?_any_concat {p : Char → Bool} (hz : p z = false) :
    (s ++ [z]).head?.any p = s.head?.any p := by
  cases s with
  | nil => exact hz
  | cons x s => rfl

theorem takeWhile_concat {p : Char → Bool} (hz : p z = false) :
    (s ++ [z]).takeWhile p = s.takeWhile p := by
  induction s with
  | nil => exact List.takeWhile_cons_of_neg (Bool.eq_false_iff.mp hz)
  | cons x s ih => rw [List.cons_append, List.takeWhile_cons, List.takeWhile_cons, ih]

/-- A character that is no quote ends no text between quotes. -/
theorem quoted?_concat (hz : z ≠ '"') (s : List Char) : quoted? (s ++ [z]) = quoted? s := by
  have hlast : quoted? [z] = none := by
    by_cases hescape : z = '\\'
    · rw [hescape]
      rfl
    · rw [quoted?_cons hescape, if_neg hz]
      split <;> rfl
  fun_induction quoted? s with
  | case1 => exact hlast
  | case2 | case4 => rfl
  | case3 c cs hline ih => rw [List.cons_append, List.cons_append, quoted?, if_neg hline, ih]
  | case5 c cs hescape hquote hbad =>
    by_cases hc : c = '\\'
    · -- a backslash in front of the last character
      subst hc
      cases cs with
      | nil =>
        rw [List.singleton_append, quoted?]
        split <;> rfl
      | cons d ds => exact (hescape d ds rfl rfl).elim
    · rw [List.cons_append, quoted?_cons hc, if_neg hquote, if_pos (hbad.resolve_left hc)]
  | case6 c cs hescape hquote hbad ih =>
    obtain ⟨hc, hline⟩ := not_or.mp hbad
    rw [List.cons_append, quoted?_cons hc, if_neg hquote, if_neg hline, ih]

end Concat

theorem not_mem_of_isPlain {w : List Char} (hw : w.all isPlain) : '}' ∉ w := by
  intro hbrace
  have hplain := List.all_eq_true.mp hw '}' hbrace
  cases hplain

theorem eq_false_of_isPlain {p : Char → Bool} (hp : ∀ x, p x = true → isPlain x) : p '}' = false :=
  Bool.eq_false_iff.mpr fun hbrace => absurd (hp '}' hbrace) (by decide)

/-- A text is sealed if a line feed may come behind it. -/
theorem joins_newline_iff {s : List Char} : Joins s ['\n'] ↔ Sealed s := by
  constructor
  · rintro (h | ⟨hsealed, -⟩)
    · cases h
    · exact hsealed
  · exact fun hsealed => .inr ⟨hsealed, [], rfl⟩

/-- What is skipped ends before the brace. -/
theorem skipFrom_concat {layout : Layout} {cs : List Char} (h : SealedFrom layout.zone (cs ++ ['}']))
    (before : Option Char) :
    skipFrom layout before (cs ++ ['}']) =
      ⟨(skipFrom layout before cs).before, (skipFrom layout before cs).rest ++ ['}']⟩ := by
  have hstarts (c : Char) (cs : List Char) :
      startsComment (c :: (cs ++ ['}'])) = startsComment (c :: cs) := by
    cases cs with
    | nil => simp [startsComment]
    | cons d ds => rfl
  fun_induction skipFrom layout before cs with
  | case1 layout before =>
    cases layout with
    | gap => rfl
    | comment | escaped => cases h.open_end
  | case2 before c cs hgap ih =>
    obtain ⟨hquote, hslash, hseal⟩ := ne_of_isGap hgap
    have hzone : zoneFrom .code (c :: (cs ++ ['}'])) = zoneFrom .code (cs ++ ['}']) :=
      zoneFrom_code hquote (startsComment_of_ne hslash)
    rw [List.cons_append, skipFrom, if_pos hgap, ih (h.tail_of_not_isSeal hseal hzone)]
  | case3 before c cs hgap hcomment ih =>
    rw [← hstarts] at hcomment
    have htail : SealedFrom .comment (cs ++ ['}']) :=
      h.tail_of_not_isSeal (isSeal_of_startsComment hcomment) (zoneFrom_startsComment hcomment)
    rw [List.cons_append, skipFrom, if_neg hgap, if_pos hcomment, ih htail]
  | case4 before c cs hgap hcomment =>
    rw [← hstarts] at hcomment
    rw [List.cons_append, skipFrom, if_neg hgap, if_neg hcomment]
  | case5 _ cs ih =>
    rw [List.cons_append, skipFrom, if_pos rfl, ih (h.tail_of_not_isSeal (by decide) rfl)]
  | case6 _ c cs hline ih =>
    rw [List.cons_append, skipFrom, if_neg hline, ih (h.tail_of_comment (zoneFrom_comment hline))]
  | case7 _ cs ih =>
    rw [List.cons_append, skipFrom, if_pos rfl, ih (h.tail_of_not_isSeal (by decide) rfl)]
  | case8 _ c cs hline ih =>
    rw [List.cons_append, skipFrom, if_neg hline, ih (h.tail_of_comment (zoneFrom_commentEscape hline))]

/-! ### Positions -/

/-- The position `d` is the position `c` with a closing brace at the end of the rest, blanks and comments
left aside. The brace is in no comment. -/
structure Clips (c d : Cursor) : Prop where
  /-- the rest -/
  rest : d.skip.rest = c.skip.rest ++ ['}']
  /-- a word that starts here is cut off from what is in front of it, or it is not -/
  word : d.skip.before.any isWordChar = c.skip.before.any isWordChar
  /-- the brace -/
  brace : Sealed d.skip.rest

namespace Clips

variable {c d : Cursor} {w : List Char} {n : Nat}

/-- Blanks and comments are the same at both positions. -/
theorem of_rest (hrest : d.rest = c.rest ++ ['}'])
    (hword : d.before.any isWordChar = c.before.any isWordChar) (hsealed : Sealed d.rest) :
    Clips c d := by
  obtain ⟨hskip, hskipped⟩ := skipFrom_before .gap hword d.rest
  have hgap : SealedFrom Layout.gap.zone (c.rest ++ ['}']) := hrest ▸ hsealed
  obtain ⟨hsealed', -⟩ := hgap.skipFrom c.before
  rw [hrest] at hskip hskipped
  rw [← hskip] at hsealed'
  rw [skipFrom_concat hgap c.before] at hskip hskipped
  refine ⟨?_, ?_, ?_⟩
  · rw [Cursor.skip, hrest, hskip]
    rfl
  · rw [Cursor.skip, hrest, hskipped]
    rfl
  · rw [Cursor.skip, hrest]
    exact hsealed'

/-- After the same characters, if the brace is in no comment behind them. -/
theorem advance (h : Clips c d) (hn : n ≤ c.skip.rest.length) (hsealed : Sealed (d.skip.rest.drop n)) :
    Clips (c.skip.advance n) (d.skip.advance n) := by
  obtain ⟨hrest, hword⟩ := advance_append h.rest h.word hn
  exact of_rest hrest hword hsealed

/-! ### What tokens look at -/

theorem joins (h : Clips c d) : Joins d.skip.rest ['\n'] :=
  joins_newline_iff.mpr h.brace

theorem isPrefixOf (h : Clips c d) (hw : '}' ∉ w) :
    w.isPrefixOf d.skip.rest = w.isPrefixOf c.skip.rest := by
  rw [h.rest, isPrefixOf_concat hw]

theorem advance_word (h : Clips c d) (hplain : w.all isPlain) (hw : w.isPrefixOf c.skip.rest) :
    Clips (c.skip.advance w.length) (d.skip.advance w.length) := by
  rw [← h.isPrefixOf (not_mem_of_isPlain hplain)] at hw
  obtain ⟨-, hjoins⟩ := h.joins.drop_isPrefixOf hplain hw
  rw [h.isPrefixOf (not_mem_of_isPlain hplain), List.isPrefixOf_iff_prefix] at hw
  exact h.advance hw.length_le (joins_newline_iff.mp hjoins)

theorem takeWhile (h : Clips c d) {p : Char → Bool} (hp : ∀ x, p x = true → isPlain x) :
    d.skip.rest.takeWhile p = c.skip.rest.takeWhile p := by
  rw [h.rest, takeWhile_concat (eq_false_of_isPlain hp)]

theorem keywordAt (h : Clips c d) (k : Keyword) : keywordAt k d.skip = keywordAt k c.skip := by
  rw [Reader.keywordAt, Reader.keywordAt, h.isPrefixOf (not_mem_of_isPlain (isPlain_keyword k)), h.word]
  cases hk : k.text.toList.isPrefixOf c.skip.rest with
  | false => rfl
  | true =>
    have hlength := (List.isPrefixOf_iff_prefix.mp hk).length_le
    rw [h.rest, List.drop_append_of_le_length hlength, head?_any_concat (by decide)]

/-- A slash that begins no comment leaves the brace behind it. -/
theorem advance_slash (h : Clips c d) (hslash : "/".toList.isPrefixOf c.skip.rest) :
    Clips (c.skip.advance 1) (d.skip.advance 1) := by
  obtain ⟨s, hs⟩ := List.isPrefixOf_iff_prefix.mp hslash
  have hrest : d.skip.rest = '/' :: (s ++ ['}']) := by
    rw [h.rest, ← hs]
    rfl
  have hcomment : startsComment d.skip.rest = false := startsComment_skipFrom .gap d.before d.rest
  have hjoins := h.joins
  refine h.advance (List.isPrefixOf_iff_prefix.mp hslash).length_le (joins_newline_iff.mp ?_)
  rw [hrest] at hcomment hjoins ⊢
  exact hjoins.tail (by decide) (by decide) hcomment

theorem matches_string (h : Clips c d) : Matches Clips (string c) (string d) := by
  have hjoins := h.joins
  by_cases hquote : c.skip.rest.head? = some '"'
  · obtain ⟨cs, hrest⟩ := List.head?_eq_some_iff.mp hquote
    have hrest' := h.rest
    rw [hrest, List.cons_append] at hrest'
    rw [hrest'] at hjoins
    rw [string_eq hrest, string_eq hrest', quoted?_concat (by decide)]
    split
    next raw hraw =>
      have hlength := length_of_quoted? hraw
      have hdrop := hjoins.drop_quoted ((quoted?_concat (by decide) cs).trans hraw)
      rw [← hrest'] at hdrop
      refine .ok _ (h.advance ?_ (joins_newline_iff.mp hdrop))
      rw [hrest, List.length_cons]
      omega
    next => exact .no
  · rw [string_eq_no hquote, string_eq_no]
    · exact .no
    · rw [h.rest]
      cases hrest : c.skip.rest with
      | nil => decide
      | cons x xs => rwa [hrest] at hquote

end Clips

/-- The texts look the same but for the brace. -/
theorem sameLook_clips : SameLook Clips where
  isPrefixOf h _ hw := h.isPrefixOf (not_mem_of_isPlain hw)
  advance_word h _ hw _ hstarts := h.advance_word hw hstarts
  takeWhile h _ hp := h.takeWhile hp
  advance_row {c d} h p hp _ := by
    refine h.advance (List.takeWhile_prefix _).length_le ?_
    rw [← h.takeWhile hp]
    exact joins_newline_iff.mp (h.joins.drop_takeWhile hp)
  keywordAt h k := h.keywordAt k
  slash h := h.isPrefixOf (by decide)
  advance_slash h hstarts := h.advance_slash hstarts
  string h := h.matches_string

/-! ### The end of a statement -/

/-- A semicolon or a closing brace is read at both positions or at none, unless it is the last brace. -/
theorem clips_symbol {c d : Cursor} {s : String} {x : Char} (hs : s.toList = [x]) (hx : isSeal x)
    (h : Clips c d) :
    Matches Clips (symbol s c) (symbol s d) ∨
      x = '}' ∧ symbol s c = .no ∧ ∃ d', symbol s d = .ok () d' ∧ d'.rest = [] := by
  have hhead : s.toList.head? = some x := by rw [hs, List.head?_cons]
  have hread {b : Cursor} {cs : List Char} (hrest : b.skip.rest = x :: cs) :
      symbol s b = .ok () (b.skip.advance 1) := by
    have hstarts : [x].isPrefixOf (x :: cs) := List.isPrefixOf_iff_prefix.mpr ⟨cs, rfl⟩
    rw [symbol, hs, hrest, if_pos hstarts, List.length_singleton]
  have hrest' := h.rest
  cases hrest : c.skip.rest with
  | nil =>
    rw [hrest, List.nil_append] at hrest'
    have hno : symbol s c = .no := symbol_eq_no hhead (by rw [hrest]; exact (Option.some_ne_none x).symm)
    by_cases hbrace : x = '}'
    · refine .inr ⟨hbrace, hno, _, hread (hbrace ▸ hrest'), ?_⟩
      rw [Cursor.advance, hrest']
      rfl
    · rw [hno, symbol_eq_no hhead (by rw [hrest']; exact fun heq => hbrace (Option.some.inj heq).symm)]
      exact .inl .no
  | cons y ys =>
    rw [hrest, List.cons_append] at hrest'
    by_cases hy : y = x
    · subst hy
      have hjoins := h.joins
      rw [hread hrest, hread hrest']
      refine .inl (.ok () (h.advance (by rw [hrest]; exact Nat.succ_pos _) (joins_newline_iff.mp ?_)))
      rw [hrest'] at hjoins ⊢
      exact hjoins.tail_of_isSeal hx (List.append_ne_nil_of_right_ne_nil ys (List.cons_ne_nil _ _))
    · have hne : some y ≠ some x := fun heq => hy (Option.some.inj heq)
      rw [symbol_eq_no hhead (by rw [hrest]; exact hne), symbol_eq_no hhead (by rw [hrest']; exact hne)]
      exact .inl .no

end Kestrel.Reader
