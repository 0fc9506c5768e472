import Kestrel.Proofs.Written.Lexing
import Kestrel.Text.Tabs

/-!
# Tabs in written tokens

Tabs are replaced before a text is read. Only texts between quotes contain any (`tab_not_mem_spell`), and
with its tabs replaced such a text can still stand between quotes (`isQuotable_expandTabsFrom`). How many
spaces a tab becomes depends on the column, so the lemmas hold for every column. What contains no blank
stands in a text with its tabs replaced only if it stands in the text itself
(`infix_of_infix_expandTabsFrom`).
-/

namespace Kestrel.Written

open Reader Text

/-! ### Tokens without tabs -/

/-- Only texts contain tabs. -/
theorem tab_not_mem_spell {t : Token} (h : t.valid = true) (htext : ∀ raw, t ≠ .string raw) :
    '\t' ∉ t.spell := by
  cases t with
  | int digits =>
    intro htab
    simp only [Token.valid, Bool.and_eq_true, List.all_eq_true] at h
    exact absurd (h.1.2 '\t' htab) (by decide)
  | string raw => exact absurd rfl (htext raw)
  | name x =>
    intro htab
    exact absurd (isNameChar_of_isName h '\t' htab) (by decide)
  | keyword k => cases k <;> decide
  | sign s =>
    cases s with
    | binary op => cases op <;> decide
    | _ => decide

/-- A text of tokens without tabs has none. -/
theorem tab_not_mem_write {ts : List Token} (h : ∀ t ∈ ts, '\t' ∉ t.spell) : '\t' ∉ write ts := by
  induction ts with
  | nil => simp
  | cons t us ih =>
    obtain ⟨ht, hus⟩ := List.forall_mem_cons.mp h
    rw [write_cons, List.mem_append, not_or]
    refine ⟨ht, ?_⟩
    cases us with
    | nil => simp
    | cons u us =>
      rw [gapped_cons, List.mem_cons, not_or]
      exact ⟨by decide, ih hus⟩

/-! ### Texts with tabs -/

/-- The columns go on behind a part of a text. -/
theorem exists_expandTabsFrom_append (column : Nat) (cs : List Char) :
    ∃ column', ∀ ds,
      expandTabsFrom column (cs ++ ds) = expandTabsFrom column cs ++ expandTabsFrom column' ds := by
  fun_induction expandTabsFrom column cs with
  | case1 column => exact ⟨column, fun ds => rfl⟩
  | case2 column cs ih =>
    obtain ⟨column', h⟩ := ih
    exact ⟨column', fun ds => by simp [expandTabsFrom, h]⟩
  | case3 column c cs hc hn ih =>
    obtain ⟨column', h⟩ := ih
    exact ⟨column', fun ds => by simp [expandTabsFrom, hc, hn, h]⟩
  | case4 column c cs hc hn ih =>
    obtain ⟨column', h⟩ := ih
    exact ⟨column', fun ds => by simp [expandTabsFrom, hc, hn, h]⟩

/-- A line feed starts a new line of columns. -/
theorem expandTabs_newline (cs ds : List Char) :
    expandTabs (cs ++ '\n' :: ds) = expandTabs cs ++ '\n' :: expandTabs ds := by
  obtain ⟨column, h⟩ := exists_expandTabsFrom_append 0 cs
  have hline : expandTabsFrom column ('\n' :: ds) = '\n' :: expandTabs ds := by
    rw [expandTabsFrom, if_neg (by decide), if_pos (.inl rfl), expandTabs]
  rw [expandTabs, h, hline]
  rfl

theorem isQuotable_spaces (n : Nat) (cs : List Char) :
    isQuotable (List.replicate n ' ' ++ cs) = isQuotable cs := by
  induction n with
  | zero => rfl
  | succ n ih => simp [List.replicate_succ, isQuotable, ih]

/-- A tab becomes at least one space. -/
theorem exists_expandTabsFrom_tab (column : Nat) :
    ∃ n column', ∀ cs, expandTabsFrom column ('\t' :: cs) =
      ' ' :: (List.replicate n ' ' ++ expandTabsFrom column' cs) := by
  have hpos : 0 < tabWidth - column % tabWidth :=
    Nat.sub_pos_of_lt (Nat.mod_lt column (by decide))
  obtain ⟨n, hn⟩ := Nat.exists_eq_succ_of_ne_zero (Nat.ne_of_gt hpos)
  exact ⟨n, column + (n + 1), fun cs => by simp [expandTabsFrom, hn, List.replicate_succ]⟩

/-- Every other character stays. -/
theorem exists_expandTabsFrom_cons {c : Char} (hc : c ≠ '\t') (column : Nat) :
    ∃ column', ∀ cs, expandTabsFrom column (c :: cs) = c :: expandTabsFrom column' cs := by
  by_cases hline : c = '\n' ∨ c = '\r'
  · exact ⟨0, fun cs => by simp [expandTabsFrom, hc, hline]⟩
  · exact ⟨column + 1, fun cs => by simp [expandTabsFrom, hc, hline]⟩

/-- What can stand between quotes still can. -/
theorem isQuotable_expandTabsFrom {raw : List Char} (h : isQuotable raw = true) (column : Nat) :
    isQuotable (expandTabsFrom column raw) = true := by
  fun_induction isQuotable raw generalizing column with
  | case1 => rfl
  | case2 c cs ih =>
    simp only [Bool.and_eq_true, decide_eq_true_eq] at h
    obtain ⟨column₁, h₁⟩ := exists_expandTabsFrom_cons (show '\\' ≠ '\t' by decide) column
    rw [h₁]
    by_cases hc : c = '\t'
    · -- of the spaces for an escaped tab, only the first one is escaped
      subst hc
      obtain ⟨n, column₂, h₂⟩ := exists_expandTabsFrom_tab column₁
      rw [h₂, isQuotable, isQuotable_spaces, ih h.2]
      rfl
    · obtain ⟨column₂, h₂⟩ := exists_expandTabsFrom_cons hc column₁
      rw [h₂, isQuotable, ih h.2]
      simpa using h.1
  | case3 c cs hslash ih =>
    simp only [Bool.and_eq_true, decide_eq_true_eq] at h
    obtain ⟨⟨⟨⟨hquote, hbackslash⟩, hfeed⟩, hreturn⟩, hcs⟩ := h
    by_cases hc : c = '\t'
    · subst hc
      obtain ⟨n, column', h'⟩ := exists_expandTabsFrom_tab column
      rw [h', ← List.cons_append, ← List.replicate_succ, isQuotable_spaces]
      exact ih hcs column'
    · obtain ⟨column', h'⟩ := exists_expandTabsFrom_cons hc column
      rw [h', isQuotable]
      · simp [hquote, hbackslash, hfeed, hreturn, ih hcs column']
      · intro d ds hd
        exact absurd hd hbackslash

/-! ### What contains no blank -/

/-- What contains no blank stands in a text also before its tabs are replaced. -/
theorem prefix_of_prefix_expandTabsFrom {w cs : List Char} (hw : ' ' ∉ w) {column : Nat}
    (h : w <+: expandTabsFrom column cs) : w <+: cs := by
  induction w generalizing cs column with
  | nil => exact List.nil_prefix
  | cons x w ih =>
    obtain ⟨hx, hw⟩ := List.ne_and_not_mem_of_not_mem_cons hw
    cases cs with
    | nil => exact h
    | cons c cs =>
      by_cases hc : c = '\t'
      · subst hc
        obtain ⟨n, column', heq⟩ := exists_expandTabsFrom_tab column
        rw [heq, List.cons_prefix_cons] at h
        exact absurd h.1.symm hx
      · obtain ⟨column', heq⟩ := exists_expandTabsFrom_cons hc column
        rw [heq, List.cons_prefix_cons] at h
        rw [List.cons_prefix_cons]
        exact ⟨h.1, ih hw h.2⟩

theorem infix_of_infix_spaces {w cs : List Char} (hw : ' ' ∉ w) {n : Nat}
    (h : w <:+: List.replicate n ' ' ++ cs) : w <:+: cs := by
  induction n with
  | zero => exact h
  | succ n ih =>
    rw [List.replicate_succ, List.cons_append, List.infix_cons_iff] at h
    obtain hstarts | h := h
    · cases w with
      | nil => exact List.nil_infix
      | cons x w =>
        rw [List.cons_prefix_cons] at hstarts
        rw [hstarts.1] at hw
        exact absurd List.mem_cons_self hw
    · exact ih h

theorem infix_of_infix_expandTabsFrom {w cs : List Char} (hw : ' ' ∉ w) {column : Nat}
    (h : w <:+: expandTabsFrom column cs) : w <:+: cs := by
  induction cs generalizing column with
  | nil => exact h
  | cons c cs ih =>
    by_cases hc : c = '\t'
    · subst hc
      obtain ⟨n, column', heq⟩ := exists_expandTabsFrom_tab column
      rw [heq, ← List.cons_append, ← List.replicate_succ] at h
      exact List.infix_cons (ih (infix_of_infix_spaces hw h))
    · obtain ⟨column', heq⟩ := exists_expandTabsFrom_cons hc column
      obtain hstarts | hinfix := List.infix_cons_iff.mp (heq cs ▸ h)
      · exact (prefix_of_prefix_expandTabsFrom hw (heq cs ▸ hstarts)).isInfix
      · exact List.infix_cons (ih hinfix)

end Kestrel.Written
