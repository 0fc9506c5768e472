import Kestrel.Proofs.Written.Lexing

/-!
# What tokens look at

Facts about the rules for tokens that hold of every text, whatever stands in it.

* `startsComment_skipFrom`, `skipFrom_before`, `skip_suffix` — blanks and comments;
* `opensLayout`, `stripped` — layout at the start of a text, and the text behind it;
* `takeWhile_isNameChar_ne_nil` — names;
* `quoted?_cons`, `length_of_quoted?` — texts between quotes;
* `unaryOp_eq`, `string_eq` — rules in the form of the others.
-/

namespace Kestrel.Reader

/-! ### Blanks and comments -/

theorem startsComment_of_ne {c : Char} {cs : List Char} (hc : c ≠ '/') :
    startsComment (c :: cs) = false := by
  cases cs with
  | nil => rfl
  | cons d ds => simp [startsComment, hc]

theorem startsComment_skipFrom (layout : Layout) (before : Option Char) (cs : List Char) :
    startsComment (skipFrom layout before cs).rest = false := by
  fun_induction skipFrom layout before cs with
  | case1 => rfl
  | case4 _ _ _ _ hcomment => exact Bool.eq_false_iff.mpr hcomment
  | _ => assumption

/-- Of the character in front it only matters whether it can belong to a word. -/
theorem skipFrom_before (layout : Layout) {before before' : Option Char}
    (hword : before'.any isWordChar = before.any isWordChar) (cs : List Char) :
    (skipFrom layout before' cs).rest = (skipFrom layout before cs).rest ∧
      (skipFrom layout before' cs).before.any isWordChar =
        (skipFrom layout before cs).before.any isWordChar := by
  cases cs with
  | nil => cases layout <;> exact ⟨rfl, hword⟩
  | cons c cs =>
    cases layout with
    | gap =>
      rw [skipFrom, skipFrom]
      split
      · exact ⟨rfl, rfl⟩
      · split
        · exact ⟨rfl, rfl⟩
        · exact ⟨rfl, hword⟩
    | comment | escaped =>
      rw [skipFrom, skipFrom]
      split <;> exact ⟨rfl, rfl⟩

theorem skipFrom_suffix (layout : Layout) (before : Option Char) (cs : List Char) :
    (skipFrom layout before cs).rest <:+ cs := by
  fun_induction skipFrom layout before cs with
  | case1 | case4 => exact List.suffix_refl _
  | _ => exact ‹_ <:+ _›.trans (List.suffix_cons _ _)

theorem skip_suffix (c : Cursor) : c.skip.rest <:+ c.rest :=
  skipFrom_suffix .gap c.before c.rest

/-! ### Layout at the start -/

section

variable {cs : List Char}

/-- A blank or a comment starts the text. -/
def opensLayout (cs : List Char) : Bool := cs.head?.any isGap || startsComment cs

/-- The text behind the layout at its start. -/
def stripped (cs : List Char) : List Char := (skipFrom .gap none cs).rest

theorem opensLayout_cons {c : Char} :
    opensLayout (c :: cs) = false ↔ isGap c = false ∧ startsComment (c :: cs) = false := by
  rw [opensLayout, List.head?_cons, Option.any_some, Bool.or_eq_false_iff]

theorem opensLayout_quote (cs : List Char) : opensLayout ('"' :: cs) = false :=
  opensLayout_cons.mpr ⟨rfl, startsComment_of_ne (by decide)⟩

theorem skipFrom_of_opensLayout_eq_false (h : opensLayout cs = false) (before : Option Char) :
    skipFrom .gap before cs = ⟨before, cs⟩ := by
  cases cs with
  | nil => rfl
  | cons c cs =>
    obtain ⟨hgap, hcomment⟩ := opensLayout_cons.mp h
    rw [skipFrom, if_neg (by simp [hgap]), if_neg (by simp [hcomment])]

theorem stripped_of_opensLayout_eq_false (h : opensLayout cs = false) : stripped cs = cs := by
  rw [stripped, skipFrom_of_opensLayout_eq_false h]

/-- What is left does not depend on the character in front. -/
theorem rest_skipFrom (layout : Layout) (before : Option Char) (cs : List Char) :
    (skipFrom layout before cs).rest = (skipFrom layout none cs).rest := by
  cases cs with
  | nil => cases layout <;> rfl
  | cons c cs =>
    cases layout with
    | gap =>
      rw [skipFrom, skipFrom]
      split
      · rfl
      · split <;> rfl
    | comment | escaped => rw [skipFrom, skipFrom]

theorem stripped_blank {c : Char} (h : isGap c = true) (cs : List Char) :
    stripped (c :: cs) = stripped cs := by
  rw [stripped, skipFrom, if_pos h, rest_skipFrom, stripped]

theorem stripped_comment {c : Char} (h : startsComment (c :: cs) = true) :
    stripped (c :: cs) = (skipFrom .comment none cs).rest := by
  have hgap : ¬isGap c = true := by
    intro hgap
    have hslash : c ≠ '/' := by
      rintro rfl
      cases hgap
    rw [startsComment_of_ne hslash] at h
    cases h
  rw [stripped, skipFrom, if_neg hgap, if_pos h, rest_skipFrom]

/-- A line feed ends a comment. -/
theorem rest_skipFrom_lineEnd (cs : List Char) :
    (skipFrom .comment none ('\n' :: cs)).rest = stripped cs :=
  rest_skipFrom .gap (some '\n') cs

/-- A line feed behind a backslash does not. -/
theorem rest_skipFrom_escapedLineEnd (cs : List Char) :
    (skipFrom .escaped none ('\n' :: cs)).rest = (skipFrom .comment none cs).rest :=
  rest_skipFrom .comment (some '\n') cs

theorem rest_skipFrom_comment {layout : Layout} {c : Char} (hlayout : layout ≠ .gap) (hc : c ≠ '\n')
    (cs : List Char) :
    (skipFrom layout none (c :: cs)).rest = (skipFrom (commentAfter c) none cs).rest := by
  cases layout with
  | gap => exact absurd rfl hlayout
  | comment | escaped => rw [skipFrom, if_neg hc, rest_skipFrom]

theorem skip_rest (c : Cursor) : c.skip.rest = stripped c.rest :=
  rest_skipFrom .gap c.before c.rest

/-- No layout is left at the start. -/
theorem opensLayout_skipFrom (layout : Layout) (before : Option Char) (cs : List Char) :
    opensLayout (skipFrom layout before cs).rest = false := by
  fun_induction skipFrom layout before cs with
  | case1 => rfl
  | case4 before c cs hgap hcomment =>
    exact opensLayout_cons.mpr ⟨Bool.eq_false_iff.mpr hgap, Bool.eq_false_iff.mpr hcomment⟩
  | _ => assumption

theorem opensLayout_skip (c : Cursor) : opensLayout c.skip.rest = false :=
  opensLayout_skipFrom .gap c.before c.rest

theorem isWordChar_of_isGap {c : Char} (h : isGap c = true) : isWordChar c = false := by
  simp only [isGap, Bool.or_eq_true, decide_eq_true_eq] at h
  rcases h with ((rfl | rfl) | rfl) | rfl <;> rfl

theorem commentAfter_ne_gap (c : Char) : commentAfter c ≠ .gap := by
  rw [commentAfter]
  split <;> nofun

/-- Behind layout no word is touched: what stands in front of it is a blank. -/
theorem skipFrom_before_isWordChar (layout : Layout) (before : Option Char) (cs : List Char)
    (h : layout ≠ .gap ∨ opensLayout cs = true ∨ before.any isWordChar = false) :
    (skipFrom layout before cs).rest = [] ∨
      (skipFrom layout before cs).before.any isWordChar = false := by
  fun_induction skipFrom layout before cs with
  | case1 => exact .inl rfl
  | case2 before c cs hgap ih => exact ih (.inr (.inr (isWordChar_of_isGap hgap)))
  | case3 before c cs hgap hcomment ih => exact ih (.inl nofun)
  | case4 before c cs hgap hcomment =>
    obtain h | h | h := h
    · exact absurd rfl h
    · rw [opensLayout_cons.mpr ⟨Bool.eq_false_iff.mpr hgap, Bool.eq_false_iff.mpr hcomment⟩] at h
      cases h
    · exact .inr h
  | case5 before cs ih => exact ih (.inr (.inr rfl))
  | case7 before cs ih => exact ih (.inl nofun)
  | case6 before c cs hline ih | case8 before c cs hline ih => exact ih (.inl (commentAfter_ne_gap c))

end

/-! ### Names -/

/-- The first character of a name belongs to it. -/
theorem takeWhile_isNameChar_ne_nil {cs : List Char} (h : cs.head?.any isNameStart) :
    cs.takeWhile isNameChar ≠ [] := by
  cases cs with
  | nil => cases h
  | cons x xs =>
    have hstart : isNameStart x = true := h
    have hx : isNameChar x = true := by
      rw [isNameChar, hstart]
      rfl
    rw [List.takeWhile_cons, if_pos hx]
    exact List.cons_ne_nil x _

/-! ### Texts between quotes -/

theorem quoted?_cons {c : Char} {cs : List Char} (hc : c ≠ '\\') :
    quoted? (c :: cs) =
      if c = '"' then some []
      else if c = '\n' ∨ c = '\r' then none
      else (quoted? cs).map (c :: ·) := by
  rw [quoted?.eq_3 _ _ fun _ _ h _ => hc h]
  simp only [hc, false_or]

theorem take_of_quoted? {cs raw : List Char} (h : quoted? cs = some raw) :
    cs.take (raw.length + 1) = raw ++ ['"'] := by
  fun_induction quoted? cs generalizing raw with
  | case1 | case2 | case5 => cases h
  | case3 _ _ _ ih | case6 _ _ _ _ _ ih =>
    obtain ⟨raw, hraw, rfl⟩ := Option.map_eq_some_iff.mp h
    simpa using ih hraw
  | case4 cs =>
    cases h
    rfl

theorem length_of_quoted? {cs raw : List Char} (h : quoted? cs = some raw) :
    raw.length + 1 ≤ cs.length := by
  fun_induction quoted? cs generalizing raw with
  | case1 | case2 | case5 => cases h
  | case3 _ _ _ ih | case6 _ _ _ _ _ ih =>
    obtain ⟨raw, hraw, rfl⟩ := Option.map_eq_some_iff.mp h
    have hlength := ih hraw
    simpa using hlength
  | case4 cs =>
    cases h
    exact Nat.le_add_left 1 cs.length

/-! ### Rules -/

theorem head?_of_isPrefixOf {w cs : List Char} (hne : w ≠ []) (h : w.isPrefixOf cs = true) :
    cs.head? = w.head? := by
  obtain ⟨rest, rfl⟩ := List.isPrefixOf_iff_prefix.mp h
  cases w with
  | nil => exact absurd rfl hne
  | cons c w => rfl

theorem symbol_eq_no {s : String} {x : Char} {c : Cursor} (hs : s.toList.head? = some x)
    (h : c.skip.rest.head? ≠ some x) : symbol s c = .no := by
  have hne : s.toList ≠ [] := by
    intro hnil
    rw [hnil] at hs
    cases hs
  rw [symbol, if_neg fun hstarts => h ((head?_of_isPrefixOf hne hstarts).trans hs)]

theorem unaryOp_eq_no {c : Cursor} (hneg : c.skip.rest.head? ≠ some '-')
    (hnot : c.skip.rest.head? ≠ some '!') : unaryOp c = .no := by
  rw [unaryOp]
  split
  next hrest => exact absurd (congrArg List.head? hrest) hneg
  next hrest => exact absurd (congrArg List.head? hrest) hnot
  next => rfl

theorem unaryOp_eq (c : Cursor) :
    unaryOp c =
      if "-".toList.isPrefixOf c.skip.rest then .ok .neg (c.skip.advance 1)
      else if "!".toList.isPrefixOf c.skip.rest then .ok .not (c.skip.advance 1)
      else .no := by
  rw [unaryOp]
  split
  next hrest =>
    rw [hrest]
    rfl
  next hrest =>
    rw [hrest]
    rfl
  next hneg hnot =>
    cases hrest : c.skip.rest with
    | nil => rfl
    | cons x xs =>
      have hx : ('-' == x) = false := beq_eq_false_iff_ne.mpr fun hx => hneg xs (hx ▸ hrest)
      have hx' : ('!' == x) = false := beq_eq_false_iff_ne.mpr fun hx => hnot xs (hx ▸ hrest)
      simp [List.isPrefixOf, hx, hx']

theorem string_eq_no {c : Cursor} (h : c.skip.rest.head? ≠ some '"') : string c = .no := by
  rw [string]
  split
  next cs hrest => exact absurd (congrArg List.head? hrest) h
  next => rfl

theorem string_eq {c : Cursor} {cs : List Char} (h : c.skip.rest = '"' :: cs) :
    string c =
      match quoted? cs with
      | some raw => .ok (unescapeFrom 0 raw) (c.skip.advance (raw.length + 2))
      | none => .no := by
  rw [string, h]
  rfl

end Kestrel.Reader
