import Kestrel.Proofs.Layout.Relaid
import Kestrel.Text.Tabs

/-!
# Texts between quotes

Which texts between quotes a program contains can be told without reading it: from left to right, with
nothing in mind but whether a comment or a text between quotes is open. Two slashes between quotes begin no
comment, and quotes in a comment begin no text. Tokens other than texts contain neither quotes nor a
slash that begins a comment, so each of them leaves the texts behind it as they are.

* `quotations` — the texts between quotes, in order, with escapes as they are written;
* `quotations_skip`, `quotations_quote`, `quotations_advance` — in front of layout, of a text between quotes,
  and of any other word;
* `quotations_append` — in two parts of a program;
* `columnFrom`, `length_quotations_expandTabsFrom` — tabs.
-/

namespace Kestrel

namespace Reader

open Text

variable {zone : Zone} {c : Char} {cs raw : List Char}

/-- The texts between quotes that end in `cs`, whose start belongs to `zone`. If a text is open there, `done`
are its characters so far, the last one first. -/
def quotationsFrom (zone : Zone) (done : List Char) : List Char → List (List Char)
  | [] => []
  | c :: cs =>
    if zone.isQuoted then
      if zone.next c cs = .code then done.reverse :: quotationsFrom .code [] cs
      else quotationsFrom (zone.next c cs) (c :: done) cs
    else quotationsFrom (zone.next c cs) [] cs

/-- The texts between quotes in a program, in order. -/
def quotations (cs : List Char) : List (List Char) := quotationsFrom .code [] cs

/-- Quotes in a comment, an escaped quote, and slashes between quotes. -/
example : quotations "x = \"a // b\" // \"c\"\n ++ \"\\\"\"".toList = ["a // b".toList, "\\\"".toList] := by
  decide +kernel

/-! ### Between two texts -/

theorem quotationsFrom_cons (h : zone.isQuoted = false) (done : List Char) (c : Char)
    (cs : List Char) : quotationsFrom zone done (c :: cs) = quotationsFrom (zone.next c cs) [] cs := by
  rw [quotationsFrom, h]
  rfl

theorem quotationsFrom_done (h : zone.isQuoted = false) (done : List Char) (cs : List Char) :
    quotationsFrom zone done cs = quotationsFrom zone [] cs := by
  cases cs with
  | nil => rfl
  | cons c cs => rw [quotationsFrom_cons h, quotationsFrom_cons h]

theorem next_code (hquote : c ≠ '"') (hcomment : startsComment (c :: cs) = false) :
    Zone.code.next c cs = .code := by
  rw [Zone.next, if_neg hquote, if_neg (by simp [hcomment])]

theorem quotations_cons (hquote : c ≠ '"') (hcomment : startsComment (c :: cs) = false) :
    quotations (c :: cs) = quotations cs := by
  rw [quotations, quotationsFrom_cons rfl, next_code hquote hcomment, quotations]

/-- A character that may begin neither a text nor a comment. -/
def isInert (c : Char) : Bool := c ≠ '"' && c ≠ '/'

theorem isInert_of_isPlain (h : isPlain c = true) : isInert c = true := by
  simp only [isPlain, Bool.and_eq_true] at h
  rw [isInert, Bool.and_eq_true]
  exact ⟨h.1.2, h.2⟩

theorem quotations_append_inert {w : List Char} (hw : w.all isInert) (cs : List Char) :
    quotations (w ++ cs) = quotations cs := by
  induction w with
  | nil => rfl
  | cons x w ih =>
    rw [List.all_cons, Bool.and_eq_true, isInert, Bool.and_eq_true, decide_eq_true_eq,
      decide_eq_true_eq] at hw
    obtain ⟨⟨hquote, hslash⟩, hw⟩ := hw
    rw [List.cons_append, quotations_cons hquote (startsComment_of_ne hslash), ih hw]

/-! ### Blanks and comments -/

theorem next_comment {layout : Layout} (hlayout : layout ≠ .gap) (hc : c ≠ '\n') (cs : List Char) :
    layout.zone.next c cs = (commentAfter c).zone := by
  rw [zone_commentAfter]
  cases layout with
  | gap => exact absurd rfl hlayout
  | comment | escaped => rw [Layout.zone, Zone.next, if_neg hc]

theorem isQuoted_zone (layout : Layout) : layout.zone.isQuoted = false := by
  cases layout <;> rfl

theorem quotationsFrom_skipFrom (layout : Layout) (before : Option Char) (cs : List Char) :
    quotationsFrom layout.zone [] cs = quotations (skipFrom layout before cs).rest := by
  fun_induction skipFrom layout before cs with
  | case1 => rfl
  | case2 before c cs hgap ih =>
    obtain ⟨hquote, hslash, -⟩ := ne_of_isGap hgap
    rw [← ih]
    exact quotations_cons hquote (startsComment_of_ne hslash)
  | case3 before c cs hgap hcomment ih =>
    have hquote : c ≠ '"' := by
      rintro rfl
      rw [startsComment_of_ne (by decide)] at hcomment
      cases hcomment
    rw [← ih, quotationsFrom_cons (isQuoted_zone _), Layout.zone, Zone.next, if_neg hquote,
      if_pos hcomment, Layout.zone]
  | case4 => rfl
  | case5 before cs ih | case7 before cs ih =>
    rw [← ih, quotationsFrom_cons (isQuoted_zone _)]
    rfl
  | case6 before c cs hline ih | case8 before c cs hline ih =>
    rw [← ih, quotationsFrom_cons (isQuoted_zone _), next_comment (by decide) hline]

theorem quotations_skip (c : Cursor) : quotations c.skip.rest = quotations c.rest :=
  (quotationsFrom_skipFrom .gap c.before c.rest).symm

/-- Behind a word without quotes and slashes. -/
theorem quotations_advance {c : Cursor} {w : List Char} (hw : w.all isInert)
    (h : w.isPrefixOf c.skip.rest) :
    quotations (c.skip.advance w.length).rest = quotations c.rest := by
  obtain ⟨cs, hcs⟩ := List.isPrefixOf_iff_prefix.mp h
  rw [← quotations_skip c, Cursor.advance, ← hcs, List.drop_left, quotations_append_inert hw]

/-- Behind a slash, which begins no comment where layout has been skipped. -/
theorem quotations_advance_slash {c : Cursor} (h : "/".toList.isPrefixOf c.skip.rest) :
    quotations (c.skip.advance 1).rest = quotations c.rest := by
  obtain ⟨cs, hcs⟩ := List.isPrefixOf_iff_prefix.mp h
  have hrest : c.skip.rest = '/' :: cs := hcs.symm
  have hcomment := startsComment_skipFrom .gap c.before c.rest
  rw [← Cursor.skip, hrest] at hcomment
  rw [← quotations_skip c, Cursor.advance, hrest, quotations_cons (by decide) hcomment]
  rfl

/-! ### A text between quotes -/

theorem quotationsFrom_quoted {cs raw : List Char} (h : quoted? cs = some raw) (done : List Char) :
    quotationsFrom .quoted done cs =
      (done.reverse ++ raw) :: quotations (cs.drop (raw.length + 1)) := by
  fun_induction quoted? cs generalizing raw done with
  | case1 | case2 | case5 => cases h
  | case3 c cs hline ih =>
    obtain ⟨raw, hraw, rfl⟩ := Option.map_eq_some_iff.mp h
    have hescape : quotationsFrom .quoted done ('\\' :: c :: cs) =
        quotationsFrom .quoted (c :: '\\' :: done) cs := rfl
    rw [hescape, ih hraw]
    simp
  | case4 cs =>
    cases h
    rw [List.append_nil]
    rfl
  | case6 c cs hnot hquote hother ih =>
    obtain ⟨raw, hraw, rfl⟩ := Option.map_eq_some_iff.mp h
    obtain ⟨hslash, -⟩ := not_or.mp hother
    have hnext : Zone.quoted.next c cs = .quoted := by
      rw [Zone.next, if_neg hquote, if_neg hslash]
    have hgo : quotationsFrom .quoted done (c :: cs) = quotationsFrom .quoted (c :: done) cs := by
      rw [quotationsFrom, hnext]
      rfl
    rw [hgo, ih hraw]
    simp

/-- A text between quotes comes before those behind it. -/
theorem quotations_quote (h : quoted? cs = some raw) :
    quotations ('"' :: cs) = raw :: quotations (cs.drop (raw.length + 1)) :=
  quotationsFrom_quoted h []

theorem unescapeFrom_eq_self (h : '\\' ∉ cs) : unescapeFrom 0 cs = cs := by
  induction cs with
  | nil => rfl
  | cons x cs ih =>
    rw [List.mem_cons, not_or] at h
    rw [unescapeFrom, if_neg (Ne.symm h.1), ih h.2]

/-! ### Two parts of a program -/

theorem quotationsFrom_append {as bs : List Char} (hslash : as.getLast? = some '/' → bs.head? ≠ some '/')
    (hzone : zoneFrom zone as = .code) (done : List Char) :
    quotationsFrom zone done (as ++ bs) = quotationsFrom zone done as ++ quotations bs := by
  induction as generalizing zone done with
  | nil =>
    obtain rfl : zone = .code := hzone
    exact quotationsFrom_done rfl done bs
  | cons c as ih =>
    rw [zoneFrom_cons] at hzone
    have hnext : zone.next c (as ++ bs) = zone.next c as :=
      Zone.next_congr (startsComment_append hslash) zone
    rw [List.cons_append, quotationsFrom, quotationsFrom, hnext]
    have htail := getLast?_tail hslash
    split
    · split
      next hcode =>
        rw [List.cons_append, ih htail (hcode ▸ hzone)]
      next => exact ih htail hzone _
    · exact ih htail hzone _

/-- Behind a part of a program that leaves no text and no comment open come the texts of the rest. -/
theorem quotations_append {as bs : List Char} (hzone : zoneFrom .code as = .code)
    (hslash : as.getLast? = some '/' → bs.head? ≠ some '/') :
    quotations (as ++ bs) = quotations as ++ quotations bs :=
  quotationsFrom_append hslash hzone []

end Reader

/-! ### Tabs -/

namespace Text

/-- The column behind a text that starts at the given column of its line. -/
def columnFrom (column : Nat) : List Char → Nat
  | [] => column
  | c :: cs =>
    if c = '\t' then columnFrom (column + (tabWidth - column % tabWidth)) cs
    else if c = '\n' ∨ c = '\r' then columnFrom 0 cs
    else columnFrom (column + 1) cs

theorem expandTabsFrom_append (column : Nat) (cs ds : List Char) :
    expandTabsFrom column (cs ++ ds) =
      expandTabsFrom column cs ++ expandTabsFrom (columnFrom column cs) ds := by
  fun_induction columnFrom column cs with
  | case1 => rfl
  | case2 column cs ih => simp [expandTabsFrom, ih]
  | case3 column c cs htab hline ih => simp [expandTabsFrom, htab, hline, ih]
  | case4 column c cs htab hline ih => simp [expandTabsFrom, htab, hline, ih]

/-- No character but a space is new. -/
theorem mem_of_mem_expandTabsFrom {x : Char} (hx : x ≠ ' ') {column : Nat} {cs : List Char}
    (h : x ∈ expandTabsFrom column cs) : x ∈ cs := by
  fun_induction expandTabsFrom column cs with
  | case1 => exact h
  | case2 column cs ih =>
    rcases List.mem_append.mp h with h | h
    · exact absurd (List.eq_of_mem_replicate h) hx
    · exact List.mem_cons_of_mem _ (ih h)
  | case3 column c cs _ _ ih | case4 column c cs _ _ ih =>
    rcases List.mem_cons.mp h with rfl | h
    · exact List.mem_cons_self
    · exact List.mem_cons_of_mem _ (ih h)

end Text

namespace Reader

open Text

variable {zone : Zone}

/-- How many texts end does not depend on what an open one has in front. -/
theorem length_quotationsFrom (zone : Zone) (done cs : List Char) :
    (quotationsFrom zone done cs).length = (quotationsFrom zone [] cs).length := by
  induction cs generalizing zone done with
  | nil => rfl
  | cons c cs ih =>
    rw [quotationsFrom, quotationsFrom]
    split
    · split
      · rw [List.length_cons, List.length_cons]
      · rw [ih, ih _ [c]]
    · rfl

/-- Does a text end with the character `c` in front of `cs`? -/
def Zone.ends (c : Char) (cs : List Char) (zone : Zone) : Bool :=
  zone.isQuoted && zone.next c cs = .code

theorem length_quotationsFrom_cons (zone : Zone) (done : List Char) (c : Char) (cs : List Char) :
    (quotationsFrom zone done (c :: cs)).length =
      (zone.ends c cs).toNat + (quotationsFrom (zone.next c cs) [] cs).length := by
  rw [quotationsFrom, Zone.ends]
  split
  next hquoted =>
    split
    next hcode =>
      rw [hquoted, hcode, List.length_cons, Nat.add_comm]
      rfl
    next hcode =>
      rw [length_quotationsFrom, hquoted, decide_eq_false hcode]
      exact (Nat.zero_add _).symm
  next hquoted =>
    rw [Bool.eq_false_iff.mpr hquoted]
    exact (Nat.zero_add _).symm

theorem length_quotationsFrom_spaces (h : zone = .code ∨ zone = .quoted ∨ zone = .comment) (n : Nat)
    (done cs : List Char) :
    (quotationsFrom zone done (List.replicate n ' ' ++ cs)).length =
      (quotationsFrom zone done cs).length := by
  induction n with
  | zero => rfl
  | succ n ih =>
    have hnext (xs : List Char) : zone.next ' ' xs = zone ∧ zone.ends ' ' xs = false := by
      rcases h with rfl | rfl | rfl
      · exact ⟨next_code (by decide) (startsComment_of_ne (by decide)), rfl⟩
      · exact ⟨rfl, rfl⟩
      · exact ⟨rfl, rfl⟩
    obtain ⟨hzone, hends⟩ := hnext (List.replicate n ' ' ++ cs)
    rw [List.replicate_succ, List.cons_append, length_quotationsFrom_cons, hzone, hends,
      ← length_quotationsFrom zone done, ih]
    exact Nat.zero_add _

/-- As many texts end with spaces for a tab as with the tab. -/
theorem length_quotationsFrom_tab (zone : Zone) (n : Nat) (done cs : List Char) :
    (quotationsFrom zone done (' ' :: (List.replicate n ' ' ++ cs))).length =
      (quotationsFrom zone done ('\t' :: cs)).length := by
  have hcode (c : Char) (hc : c = ' ' ∨ c = '\t') (xs : List Char) : Zone.code.next c xs = .code := by
    rcases hc with rfl | rfl <;> exact next_code (by decide) (startsComment_of_ne (by decide))
  rw [length_quotationsFrom_cons, length_quotationsFrom_cons]
  cases zone with
  | code =>
    rw [hcode _ (.inl rfl), hcode _ (.inr rfl), length_quotationsFrom_spaces (.inl rfl)]
    rfl
  | quoted | quotedEscape =>
    exact congrArg _ (length_quotationsFrom_spaces (.inr (.inl rfl)) n [] cs)
  | comment | commentEscape =>
    exact congrArg _ (length_quotationsFrom_spaces (.inr (.inr rfl)) n [] cs)

/-- As many texts end in a program as with its tabs replaced. -/
theorem length_quotationsFrom_expandTabsFrom (zone : Zone) (done : List Char) (column : Nat)
    (cs : List Char) :
    (quotationsFrom zone done (expandTabsFrom column cs)).length =
      (quotationsFrom zone done cs).length := by
  induction cs generalizing zone done column with
  | nil => rfl
  | cons c cs ih =>
    by_cases hc : c = '\t'
    · subst hc
      obtain ⟨n, column', h⟩ := Written.exists_expandTabsFrom_tab column
      rw [h, length_quotationsFrom_tab, length_quotationsFrom_cons, length_quotationsFrom_cons]
      have hnext : zone.next '\t' (expandTabsFrom column' cs) = zone.next '\t' cs :=
        Zone.next_congr (startsComment_expandTabsFrom '\t' column' cs) zone
      rw [Zone.ends, Zone.ends, hnext, ih]
    · obtain ⟨column', h⟩ := Written.exists_expandTabsFrom_cons hc column
      have hnext : zone.next c (expandTabsFrom column' cs) = zone.next c cs :=
        Zone.next_congr (startsComment_expandTabsFrom c column' cs) zone
      rw [h, length_quotationsFrom_cons, length_quotationsFrom_cons, Zone.ends, Zone.ends, hnext, ih]

theorem length_quotations_expandTabsFrom (column : Nat) (cs : List Char) :
    (quotations (expandTabsFrom column cs)).length = (quotations cs).length :=
  length_quotationsFrom_expandTabsFrom .code [] column cs

end Reader

end Kestrel
