import Mathlib.Data.List.Induction
import Kestrel.Diagnosis.ParseError
import Kestrel.Proofs.Written.Tabs

/-!
# Lines and places

The lines of a text are what stands between its line feeds, so they can be joined and cut again without a
loss. A place in a text lies in the line that has its number, behind as many characters as its column says,
and the replacement of tabs keeps the lines apart.

* `lines_append_newline`, `lines_joinLines`, `length_lines` — lines and line feeds;
* `lines_expandTabs` — tabs are replaced line by line;
* `exists_line_placeOf` — a place and the line it lies in.
-/

namespace Kestrel.Text

variable {c : Char} {cs l : List Char} {ls : List (List Char)}

theorem lines_cons_of_ne (hc : c ≠ '\n') (cs : List Char) :
    lines (c :: cs) = (lines cs).modifyHead (c :: ·) := by
  rw [lines, if_neg hc]
  split
  next hnil => exact absurd hnil (lines_ne_nil cs)
  next hlines =>
    rw [hlines]
    rfl

theorem lines_eq_splitOn (cs : List Char) : lines cs = cs.splitOn '\n' := by
  induction cs with
  | nil => rfl
  | cons c cs ih =>
    rw [List.splitOn_eq_splitOnP] at ih ⊢
    rw [List.splitOnP_cons_eq_if_modifyHead, ← ih]
    by_cases hc : c = '\n'
    · rw [lines, if_pos hc, if_pos (beq_iff_eq.mpr hc)]
    · rw [lines_cons_of_ne hc, if_neg (mt beq_iff_eq.mp hc)]

/-- A line feed ends a line. -/
theorem lines_append_newline (cs ds : List Char) : lines (cs ++ '\n' :: ds) = lines cs ++ lines ds := by
  simp only [lines_eq_splitOn]
  exact List.splitOn_append_cons_self cs ds

/-- The lines of a text make the text. -/
theorem joinLines_lines (cs : List Char) : joinLines (lines cs) = cs := by
  rw [lines_eq_splitOn, joinLines]
  exact List.intercalate_splitOn '\n'

/-- Lines that are joined can be cut again. -/
theorem lines_joinLines (hls : ∀ l ∈ ls, '\n' ∉ l) (hne : ls ≠ []) : lines (joinLines ls) = ls := by
  rw [lines_eq_splitOn, joinLines]
  exact List.splitOn_intercalate '\n' hls hne

theorem lines_of_not_mem (h : '\n' ∉ l) : lines l = [l] := by
  have hjoined := lines_joinLines (List.forall_mem_singleton.mpr h) (List.cons_ne_nil l [])
  rwa [joinLines, List.intercalate_singleton] at hjoined

theorem newline_not_mem_of_mem_lines (h : l ∈ lines cs) : '\n' ∉ l := by
  induction cs generalizing l with
  | nil =>
    rw [List.mem_singleton.mp h]
    exact List.not_mem_nil
  | cons c cs ih =>
    by_cases hc : c = '\n'
    · rw [lines, if_pos hc] at h
      obtain rfl | h := List.mem_cons.mp h
      · exact List.not_mem_nil
      · exact ih h
    · rw [lines_cons_of_ne hc] at h
      obtain ⟨line, rest, hlines⟩ := List.exists_cons_of_ne_nil (lines_ne_nil cs)
      rw [hlines] at h ih
      obtain rfl | h := List.mem_cons.mp h
      · simp [Ne.symm hc, ih List.mem_cons_self]
      · exact ih (List.mem_cons_of_mem _ h)

/-- There is one line more than there are line feeds. -/
theorem length_lines (cs : List Char) : (lines cs).length = cs.count '\n' + 1 := by
  induction cs with
  | nil => rfl
  | cons c cs ih =>
    by_cases hc : c = '\n'
    · rw [lines, if_pos hc, hc, List.count_cons_self, List.length_cons, ih]
    · rw [lines_cons_of_ne hc, List.length_modifyHead, List.count_cons_of_ne hc, ih]

/-- The first line goes to the first line feed. -/
theorem head?_lines (cs : List Char) : (lines cs).head? = some (cs.takeWhile (· ≠ '\n')) := by
  induction cs with
  | nil => rfl
  | cons c cs ih =>
    rw [List.takeWhile_cons]
    by_cases hc : c = '\n'
    · rw [lines, if_pos hc, if_neg (by simpa using hc)]
      rfl
    · rw [lines_cons_of_ne hc, List.head?_modifyHead, ih, if_pos (by simpa using hc)]
      rfl

/-! ### Tabs -/

theorem newline_not_mem_expandTabsFrom (h : '\n' ∉ l) (column : Nat) :
    '\n' ∉ expandTabsFrom column l := by
  fun_induction expandTabsFrom column l with
  | case1 => exact h
  | case2 column cs ih => simp [ih (List.not_mem_of_not_mem_cons h)]
  | case3 column c cs _ _ ih | case4 column c cs _ _ ih =>
    obtain ⟨hc, hcs⟩ := List.ne_and_not_mem_of_not_mem_cons h
    simp [hc, ih hcs]

/-- Tabs are replaced in each line as if there were no other. -/
theorem lines_expandTabs (cs : List Char) : lines (expandTabs cs) = (lines cs).map expandTabs := by
  have hjoin (ls : List (List Char)) (hls : ∀ l ∈ ls, '\n' ∉ l) (hne : ls ≠ []) :
      lines (expandTabs (joinLines ls)) = ls.map expandTabs := by
    induction ls with
    | nil => exact absurd rfl hne
    | cons l ls ih =>
      obtain ⟨hl, hls⟩ := List.forall_mem_cons.mp hls
      have hline : lines (expandTabs l) = [expandTabs l] :=
        lines_of_not_mem (newline_not_mem_expandTabsFrom hl 0)
      cases ls with
      | nil => rw [joinLines, List.intercalate_singleton, hline, List.map_singleton]
      | cons l' ls =>
        have hcut : joinLines (l :: l' :: ls) = l ++ '\n' :: joinLines (l' :: ls) := by
          simp [joinLines, List.intercalate]
        rw [hcut, Written.expandTabs_newline, lines_append_newline, hline,
          ih hls (List.cons_ne_nil l' ls)]
        rfl
  have hlines := hjoin (lines cs) (fun l hl => newline_not_mem_of_mem_lines hl) (lines_ne_nil cs)
  rwa [joinLines_lines] at hlines

end Kestrel.Text

namespace Kestrel.Diagnosis

open Text

/-! ### Places -/

/-- What the last line feed of a text leaves behind it. -/
theorem exists_append_lastLine (before : List Char) :
    ∃ ls front, (∀ after, lines (before ++ after) = ls ++ lines (front ++ after)) ∧
      ls.length = before.count '\n' ∧ '\n' ∉ front ∧ front <:+ before ∧
      (before.reverse.takeWhile (· ≠ '\n')).length = front.length := by
  induction before using List.reverseRec with
  | nil => exact ⟨[], [], fun after => rfl, rfl, List.not_mem_nil, List.suffix_refl [], rfl⟩
  | append_singleton before c ih =>
    by_cases hc : c = '\n'
    · subst hc
      refine ⟨lines before, [], fun after => ?_, ?_, List.not_mem_nil, List.nil_suffix, ?_⟩
      · rw [List.append_assoc]
        exact lines_append_newline before after
      · rw [length_lines, List.count_append, List.count_singleton_self]
      · simp
    · obtain ⟨ls, front, hlines, hlength, hfront, hsuffix, hcolumn⟩ := ih
      refine ⟨ls, front ++ [c], fun after => ?_, ?_, ?_, ?_, ?_⟩
      · rw [List.append_assoc, hlines, List.append_assoc]
      · simp [hlength, hc]
      · simp [hfront, Ne.symm hc]
      · exact (List.suffix_append_inj_of_length_eq rfl).mpr ⟨hsuffix, rfl⟩
      · simpa [hc] using hcolumn

/-- A place lies in the line with its number. In front of it in that line stands what the text has behind
its last line feed there, and behind it what the text has up to the next one. -/
theorem exists_line_placeOf (cs : List Char) (n : Nat) :
    ∃ front, (placeOf cs n).column = front.length + 1 ∧ front <:+ cs.take n ∧
      (lines cs)[(placeOf cs n).line - 1]? =
        some (front ++ (cs.drop n).takeWhile (· ≠ '\n')) := by
  obtain ⟨ls, front, hlines, hlength, hfront, hsuffix, hcolumn⟩ := exists_append_lastLine (cs.take n)
  refine ⟨front, congrArg (· + 1) hcolumn, hsuffix, ?_⟩
  have hcs : lines cs = ls ++ lines (front ++ cs.drop n) := by rw [← hlines, List.take_append_drop]
  have hline : (placeOf cs n).line - 1 = ls.length := hlength.symm
  have hne : ∀ c ∈ front, decide (c ≠ '\n') = true :=
    fun c hc => decide_eq_true fun heq => hfront (heq ▸ hc)
  rw [hcs, hline, List.getElem?_append_right (Nat.le_refl _), Nat.sub_self, ← List.head?_eq_getElem?,
    head?_lines, List.takeWhile_append_of_pos hne]

end Kestrel.Diagnosis
