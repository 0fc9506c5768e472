import Kestrel.Proofs.Diagnosis.Lines
import Mathlib.Data.List.Basic

/-!
# What an excerpt shows

An excerpt shows the lines around a line, each behind its number, and the mark below the line itself. Line
numbers take four places, and the mark allows for so many. So it stands under its column for the first 9999
lines of a text, and too far to the left for all others.

* `numberedLines` — the lines of a text in a range of numbers;
* `lines_excerpt` — the lines of an excerpt;
* `length_lineNumber`, `idxOf_marker` — where a line starts behind its number, and where the mark stands;
* `excerpt_complete` — an excerpt shows every line around, and the mark where it belongs;
* `excerpt_past_four_digits` — a mark that is not under its column.
-/

namespace Kestrel.Diagnosis

open Text

/-- The lines of a text whose numbers go from `first` to `last`, each behind its number. -/
def numberedLines (cs : List Char) (first last : Nat) : List (List Char) :=
  (List.range' first (last + 1 - first)).map fun n => numberedLine n ((lines cs).getD (n - 1) [])

/-- A line behind its number, with the mark below if it is the line at fault. -/
def shownLine (cs : List Char) (line column n : Nat) : List (List Char) :=
  numberedLine n ((lines cs).getD (n - 1) []) :: if n = line then [marker column] else []

variable {cs : List Char} {line column around : Nat}

/-! ### Lines and marks -/

/-- The lines of a text from number `n + 1` on are shown one after another. -/
theorem excerptFrom_window (line column : Nat) {n count : Nat} (h : n + count ≤ (lines cs).length) :
    excerptFrom line column (n + 1) (((lines cs).drop n).take count) =
      (List.range' (n + 1) count).flatMap (shownLine cs line column) := by
  induction count generalizing n with
  | zero => rfl
  | succ count ih =>
    have hn : n < (lines cs).length := by omega
    have hrest := ih (n := n + 1) (by omega)
    have hcons : ((lines cs).drop n).take (count + 1) =
        (lines cs)[n] :: ((lines cs).drop (n + 1)).take count := by
      rw [List.drop_eq_getElem_cons hn, List.take_succ_cons]
    have hline : (lines cs).getD (n + 1 - 1) [] = (lines cs)[n] := by
      rw [Nat.add_sub_cancel, List.getD_eq_getElem?_getD, List.getElem?_eq_getElem hn, Option.getD_some]
    rw [hcons, excerptFrom, hrest, List.range'_succ, List.flatMap_cons, shownLine, hline]
    by_cases hmark : n + 1 = line
    · rw [if_pos hmark, if_pos (congrArg Nat.cast hmark)]
      rfl
    · rw [if_neg hmark, if_neg (by omega)]
      rfl

/-- Where the line at fault is not among them, lines are shown without a mark. -/
theorem flatMap_shownLine {first count : Nat} (h : ∀ n ∈ List.range' first count, n ≠ line) :
    (List.range' first count).flatMap (shownLine cs line column) =
      (List.range' first count).map fun n => numberedLine n ((lines cs).getD (n - 1) []) := by
  rw [List.map_eq_flatMap]
  refine List.flatMap_congr fun n hn => ?_
  rw [shownLine, if_neg (h n hn)]

/-- The mark follows the line at fault. -/
theorem flatMap_shownLine_last {first : Nat} (h : first ≤ line) :
    (List.range' first (line + 1 - first)).flatMap (shownLine cs line column) =
      numberedLines cs first line ++ [marker column] := by
  have hconcat : List.range' first (line + 1 - first) = List.range' first (line - first) ++ [line] := by
    rw [show line + 1 - first = line - first + 1 by omega, List.range'_1_concat,
      Nat.add_sub_cancel' h]
  have hfront : ∀ n ∈ List.range' first (line - first), n ≠ line := by
    intro n hn
    rw [List.mem_range'_1] at hn
    omega
  rw [numberedLines, hconcat, List.flatMap_append, flatMap_shownLine hfront, List.map_append,
    List.append_assoc, List.flatMap_singleton, shownLine, if_pos rfl]
  rfl

/-- The lines around, and the mark behind the line at fault. -/
theorem excerptLines_eq (hline : 1 ≤ line) (hlast : line ≤ (lines cs).length) :
    excerptLines cs line column around =
      numberedLines cs (max 1 (line - around)) line ++
        marker column :: numberedLines cs (line + 1) (min (lines cs).length (line + around)) := by
  have hfirst : ((line : Int) - around - 1).toNat = max 1 (line - around) - 1 := by omega
  have hend : ((line : Int) + around).toNat = line + around := by omega
  -- the numbers of the first and the last line that are shown
  obtain ⟨f, hf, hf₁, hfline⟩ : ∃ f, max 1 (line - around) = f ∧ 1 ≤ f ∧ f ≤ line :=
    ⟨_, rfl, by omega, by omega⟩
  obtain ⟨l, hl, hlinel, hlength⟩ :
      ∃ l, min (lines cs).length (line + around) = l ∧ line ≤ l ∧ l ≤ (lines cs).length :=
    ⟨_, rfl, by omega, by omega⟩
  have hwindow : ((lines cs).take (line + around)).drop (f - 1) =
      ((lines cs).drop (f - 1)).take (l + 1 - f) := by
    rw [List.drop_take, List.take_eq_take_iff, List.length_drop]
    omega
  have hsplit : List.range' f (l + 1 - f) =
      List.range' f (line + 1 - f) ++ List.range' (line + 1) (l + 1 - (line + 1)) := by
    have happend : List.range' f (line + 1 - f) ++ List.range' (f + (line + 1 - f)) (l + 1 - (line + 1)) =
        List.range' f (line + 1 - f + (l + 1 - (line + 1))) := List.range'_append_1
    rw [show f + (line + 1 - f) = line + 1 by omega,
      show line + 1 - f + (l + 1 - (line + 1)) = l + 1 - f by omega] at happend
    exact happend.symm
  have hbehind : ∀ n ∈ List.range' (line + 1) (l + 1 - (line + 1)), n ≠ line := by
    intro n hn
    rw [List.mem_range'_1] at hn
    omega
  have hinside : f - 1 + (l + 1 - f) ≤ (lines cs).length := by omega
  have hall := excerptFrom_window line column hinside
  rw [Nat.sub_add_cancel hf₁] at hall
  rw [excerptLines, hfirst, hend, hf, hl, Nat.sub_add_cancel hf₁, hwindow, hall, hsplit,
    List.flatMap_append, flatMap_shownLine_last hfline, flatMap_shownLine hbehind, List.append_assoc]
  rfl

/-! ### Numbers -/

theorem newline_not_mem_lineNumber (n : Nat) : '\n' ∉ lineNumber n := by
  rw [lineNumber, Nat.toList_repr, List.mem_append, List.mem_replicate, not_or]
  refine ⟨fun h => absurd h.2 (by decide), fun h => ?_⟩
  exact absurd (Nat.isDigit_of_mem_toDigits (by decide) (by decide) h) (by decide)

/-- A number takes four places, or more if it has more digits. -/
theorem length_lineNumber_le_iff {n : Nat} : (lineNumber n).length ≤ 4 ↔ n < 10000 := by
  have hdigits := Nat.length_toDigits_le_iff (b := 10) (n := n) (k := 4) (by decide) (by decide)
  rw [lineNumber, Nat.toList_repr, List.length_append, List.length_replicate]
  omega

theorem four_le_length_lineNumber (n : Nat) : 4 ≤ (lineNumber n).length := by
  rw [lineNumber, List.length_append, List.length_replicate]
  omega

/-! ### Excerpts -/

theorem newline_not_mem_of_mem_numberedLines {first last : Nat} {l : List Char}
    (h : l ∈ numberedLines cs first last) : '\n' ∉ l := by
  obtain ⟨n, -, rfl⟩ := List.mem_map.mp h
  have hline : '\n' ∉ (lines cs).getD (n - 1) [] := by
    rw [List.getD_eq_getElem?_getD]
    cases hget : (lines cs)[n - 1]? with
    | none => exact List.not_mem_nil
    | some line => exact newline_not_mem_of_mem_lines (List.mem_of_getElem? hget)
  rw [numberedLine, List.mem_append, List.mem_cons, List.mem_cons]
  rintro (hn | hn | hn | hn)
  · exact newline_not_mem_lineNumber n hn
  · cases hn
  · cases hn
  · exact hline hn

theorem newline_not_mem_marker (column : Int) : '\n' ∉ marker column := by
  rw [marker, List.mem_append, List.mem_replicate]
  rintro (⟨-, h⟩ | h)
  · cases h
  · exact absurd h (by decide)

/-- The mark stands behind the places of a line number and behind those of the columns in front. -/
theorem idxOf_marker (column : Nat) : (marker column).idxOf '^' = 6 + (column - 1) := by
  have hcolumn : ((column : Int) - 1).toNat = column - 1 := by omega
  have hspaces : '^' ∉ List.replicate (6 + (column - 1)) ' ' :=
    fun h => absurd (List.eq_of_mem_replicate h) (by decide)
  rw [marker, hcolumn, List.idxOf_append_of_notMem hspaces, List.length_replicate]
  rfl

/-- The lines of an excerpt. -/
theorem lines_excerpt (column around : Nat) (hline : 1 ≤ line) (hlast : line ≤ (lines cs).length) :
    lines (excerpt cs line column around) =
      numberedLines cs (max 1 (line - around)) line ++
        marker column :: numberedLines cs (line + 1) (min (lines cs).length (line + around)) := by
  rw [excerpt, excerptLines_eq hline hlast]
  refine lines_joinLines (fun l hl => ?_) (by simp)
  obtain hl | hl := List.mem_append.mp hl
  · exact newline_not_mem_of_mem_numberedLines hl
  · obtain rfl | hl := List.mem_cons.mp hl
    · exact newline_not_mem_marker column
    · exact newline_not_mem_of_mem_numberedLines hl

/-- An excerpt is complete: it shows the lines around a line, as many as there are on either side, in their
order and each behind its number, and right below the line itself the mark. The mark stands under the
column, counted from where the line starts behind its number, just as long as the number has at most four
digits. -/
theorem excerpt_complete (column around : Nat) (hline : 1 ≤ line) (hlast : line ≤ (lines cs).length) :
    lines (excerpt cs line column around) =
        numberedLines cs (max 1 (line - around)) line ++
          marker column :: numberedLines cs (line + 1) (min (lines cs).length (line + around)) ∧
      ((marker column).idxOf '^' = (lineNumber line ++ [':', ' ']).length + (column - 1) ↔
        line < 10000) := by
  refine ⟨lines_excerpt column around hline hlast, ?_⟩
  have hfour := four_le_length_lineNumber line
  rw [← length_lineNumber_le_iff, idxOf_marker, List.length_append]
  simp only [List.length_cons, List.length_nil]
  omega

/-- The middle one of three lines, with a line on either side. -/
theorem excerpt_complete_middle :
    lines (excerpt "a\nb = ;\nc".toList 2 5 1) =
        ["   1: a".toList, "   2: b = ;".toList, "          ^ Error here".toList, "   3: c".toList] ∧
      (marker 5).idxOf '^' = "   2: b = ;".toList.idxOf ';' := by
  have hlines : lines "a\nb = ;\nc".toList = ["a".toList, "b = ;".toList, "c".toList] := by decide
  have hlast : 2 ≤ (lines "a\nb = ;\nc".toList).length := by rw [hlines]; decide
  obtain ⟨hexcerpt, hmark⟩ := excerpt_complete 5 1 (by decide) hlast
  refine ⟨hexcerpt.trans ?_, (hmark.mpr (by decide)).trans (by decide)⟩
  rw [numberedLines, numberedLines, hlines]
  decide

/-- Line feeds alone make empty lines. -/
theorem lines_replicate_newline (n : Nat) :
    lines (List.replicate n '\n') = List.replicate (n + 1) [] := by
  induction n with
  | zero => rfl
  | succ n ih => rw [List.replicate_succ, lines, if_pos rfl, ih, ← List.replicate_succ]

/-- Below line 10000 the mark for the first column stands under the blank behind the number. -/
theorem excerpt_past_four_digits :
    lines (excerpt (List.replicate 9999 '\n') 10000 1 0) =
        ["10000: ".toList, "      ^ Error here".toList] ∧
      "      ^ Error here".toList.idxOf '^' ≠ "10000: ".toList.length + (1 - 1) := by
  have hlength : (lines (List.replicate 9999 '\n')).length = 10000 := by
    rw [lines_replicate_newline, List.length_replicate]
  have hline : (lines (List.replicate 9999 '\n')).getD (10000 - 1) [] = [] := by
    rw [lines_replicate_newline, List.getD_eq_getElem?_getD, List.getElem?_replicate_of_lt (by decide)]
    rfl
  have hexcerpt := lines_excerpt 1 0 (by decide) (Nat.le_of_eq hlength.symm)
  have hsingle : List.range' 10000 (10000 + 1 - 10000) = [10000] := by decide
  have hnone : List.range' 10001 (10000 + 1 - 10001) = [] := by decide
  rw [hlength, numberedLines, numberedLines, show max 1 (10000 - 0) = 10000 from rfl,
    show min 10000 (10000 + 0) = 10000 from rfl, hsingle, hnone, List.map_singleton, hline] at hexcerpt
  exact ⟨hexcerpt.trans (by decide), by decide⟩

end Kestrel.Diagnosis
