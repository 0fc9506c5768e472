import Kestrel.Proofs.Diagnosis.Lines
import Kestrel.Proofs.Outlines.Heading

/-!
# Outlines can be read back

An outline shows the structure of a tree by its indentation only. The nodes below a node are on the lines
behind its own, up to the first one that is indented no further. So the lines of trees at one level can be
told apart from all that is indented less, and an outline belongs to one tree. This needs indentation: where
a level is negative no spaces are shown, so below a root at level -2 the levels of two generations look the
same.

* `indent`, `indent_line` — the spaces in front of a line;
* `forest_append_inj` — the lines of trees at one level, and what comes behind them;
* `outline_inj` — the lines of a tree;
* `lines_outlineText` — the lines of an outline as a text;
* `eq_of_outlineText` — an outline belongs to one tree;
* `outlineText_level_minus_two` — two trees with the same text at level -2.
-/

namespace Kestrel.Node

open Text

variable {n m : Node} {level : Int}

/-! ### Indentation -/

/-- The number of spaces in front of a line. -/
def indent (line : String) : Nat := (line.toList.takeWhile (· = ' ')).length

theorem toList_line (level : Int) (n : Node) :
    (indentation level ++ n.heading).toList =
      List.replicate (2 * level).toNat ' ' ++ n.heading.toList := by
  rw [indentation, String.toList_append, String.toList_ofList]

theorem heading_inj (h : indentation level ++ n.heading = indentation level ++ m.heading) :
    n.heading = m.heading := by
  have hchars := congrArg String.toList h
  rw [toList_line, toList_line] at hchars
  exact String.toList_inj.mp (List.append_cancel_left hchars)

theorem indent_line (level : Int) (n : Node) :
    indent (indentation level ++ n.heading) = (2 * level).toNat := by
  obtain ⟨c, cs, hheading, hc⟩ := n.exists_heading_cons
  have hspaces : ∀ x ∈ List.replicate (2 * level).toNat ' ', decide (x = ' ') = true := by
    intro x hx
    exact decide_eq_true (List.eq_of_mem_replicate hx)
  rw [indent, toList_line, hheading, List.takeWhile_append_of_pos hspaces,
    List.takeWhile_cons_of_neg (by simpa using hc), List.append_nil, List.length_replicate]

/-! ### Trees at one level -/

/-- The lines do not start with one that is indented as far as the level. -/
def Dedented (level : Int) (lines : List String) : Prop :=
  ∀ line ∈ lines.head?, indent line < (2 * level).toNat

theorem dedented_nil : Dedented level [] := by
  intro line hline
  cases hline

/-- The lines of trees are not indented as far as those of the nodes below them. -/
theorem Dedented.forest {rest : List String} (hlevel : 0 ≤ level) (h : Dedented level rest)
    (ns : List Node) : Dedented (level + 1) (ns.flatMap (outline level) ++ rest) := by
  have hlt : (2 * level).toNat < (2 * (level + 1)).toNat := by omega
  cases ns with
  | nil => exact fun line hline => Nat.lt_trans (h line hline) hlt
  | cons n ns =>
    intro line hline
    rw [List.flatMap_cons, outline_eq] at hline
    cases hline
    rw [indent_line]
    exact hlt

/-- Lines that start with a tree are not dedented. -/
theorem not_dedented_forest (n : Node) (ns : List Node) (rest : List String) :
    ¬Dedented level ((n :: ns).flatMap (outline level) ++ rest) := by
  intro h
  rw [List.flatMap_cons, outline_eq] at h
  have hlt := h _ rfl
  rw [indent_line] at hlt
  exact Nat.lt_irrefl _ hlt

/-- The lines of trees at one level determine the trees, whatever less indented lines come behind them. -/
theorem forest_append_inj {ns ms : List Node} {rest rest' : List String} (hlevel : 0 ≤ level)
    (hrest : Dedented level rest) (hrest' : Dedented level rest')
    (h : ns.flatMap (outline level) ++ rest = ms.flatMap (outline level) ++ rest') :
    ns = ms ∧ rest = rest' := by
  -- by induction on the number of lines: those below the first node, and those behind them, are less
  induction hlength : (ns.flatMap (outline level)).length using Nat.strongRecOn
    generalizing level ns ms rest rest' with
  | ind k ih =>
    cases ns with
    | nil =>
      cases ms with
      | nil => exact ⟨rfl, h⟩
      | cons m ms =>
        rw [List.flatMap_nil, List.nil_append] at h
        exact absurd (h ▸ hrest) (not_dedented_forest m ms rest')
    | cons n ns =>
      cases ms with
      | nil =>
        rw [List.flatMap_nil, List.nil_append] at h
        exact absurd (h ▸ hrest') (not_dedented_forest n ns rest)
      | cons m ms =>
        rw [List.flatMap_cons, outline_eq, List.length_append, List.length_cons] at hlength
        rw [List.flatMap_cons, List.flatMap_cons, outline_eq, outline_eq, List.append_assoc,
          List.append_assoc] at h
        obtain ⟨hline, hbelow⟩ := List.cons.inj h
        obtain ⟨hchildren, hbehind⟩ := ih _ (by omega) (Int.add_nonneg hlevel Int.one_nonneg)
          (hrest.forest hlevel ns) (hrest'.forest hlevel ms) hbelow rfl
        obtain ⟨rfl, rfl⟩ := ih _ (by omega) hlevel hrest hrest' hbehind rfl
        rw [eq_of_heading (heading_inj hline) hchildren]
        exact ⟨rfl, rfl⟩

/-- The lines of a tree determine it, if the nodes below the root are not at a negative level. -/
theorem outline_inj (hlevel : -1 ≤ level) (h : n.outline level = m.outline level) : n = m := by
  rw [outline_eq, outline_eq] at h
  obtain ⟨hline, hbelow⟩ := List.cons.inj h
  have hlevel' : 0 ≤ level + 1 := by omega
  rw [← List.append_nil (n.children.flatMap _), ← List.append_nil (m.children.flatMap _)] at hbelow
  obtain ⟨hchildren, -⟩ := forest_append_inj hlevel' dedented_nil dedented_nil hbelow
  exact eq_of_heading (heading_inj hline) hchildren

/-! ### Outlines as texts -/

theorem printable_of_mem_outline {line : String} (h : line ∈ n.outline level) :
    Printable line.toList := by
  induction level, n using outline.induct with
  | case1 level n ih =>
    rw [outline_eq, List.mem_cons, List.mem_flatMap] at h
    obtain rfl | ⟨m, hm, hline⟩ := h
    · have hspaces : Printable (List.replicate (2 * level).toNat ' ') := by
        intro c hc
        rw [List.eq_of_mem_replicate hc]
        decide
      rw [toList_line]
      exact hspaces.append n.printable_heading
    · exact ih ⟨m, hm⟩ hline

/-- Lines that all end in a line feed, and the empty line behind the last one. -/
theorem lines_flatMap {ls : List (List Char)} (h : ∀ l ∈ ls, '\n' ∉ l) :
    lines (ls.flatMap (· ++ ['\n'])) = ls ++ [[]] := by
  induction ls with
  | nil => rfl
  | cons l ls ih =>
    obtain ⟨hl, hls⟩ := List.forall_mem_cons.mp h
    rw [List.flatMap_cons, List.append_assoc, List.singleton_append, lines_append_newline,
      lines_of_not_mem hl, ih hls]
    rfl

/-- The lines of an outline as a text. -/
theorem lines_outlineText {text : String} (h : n.outlineText? level = some text) :
    lines text.toList = (n.outline level).map String.toList ++ [[]] := by
  rw [outlineText?] at h
  split at h
  next =>
    obtain rfl := Option.some.inj h
    have hchars : (String.join ((n.outline level).map (· ++ "\n"))).toList =
        ((n.outline level).map String.toList).flatMap (· ++ ['\n']) := by
      rw [String.toList_join, List.flatMap_map, List.flatMap_map]
      simp only [String.toList_append]
      rfl
    rw [hchars, lines_flatMap]
    rintro l hl
    obtain ⟨line, hline, rfl⟩ := List.mem_map.mp hl
    exact (printable_of_mem_outline hline).newline_not_mem
  next => cases h

/-- An outline loses nothing: it belongs to one tree only, if it starts at level -1 or above. -/
theorem eq_of_outlineText {text : String} (hlevel : -1 ≤ level) (hn : n.outlineText? level = some text)
    (hm : m.outlineText? level = some text) : n = m := by
  have hlines := lines_outlineText hn
  rw [lines_outlineText hm] at hlines
  have hsame := List.append_cancel_right hlines
  exact outline_inj hlevel ((List.map_inj_right fun _ _ => String.toList_inj.mp).mp hsame.symm)

/-- A tree without integers can be written. -/
theorem outlineText_of_isOverlong (h : n.findAll isOverlong = []) :
    n.outlineText? level = some (String.join ((n.outline level).map (· ++ "\n"))) := by
  rw [outlineText?, if_pos]
  rw [writable, h]
  rfl

/-- A tree at level -1, with texts that look like quotes and lines. -/
theorem eq_of_outlineText_quoted :
    let n := block [str "it's\n", call "f" []]
    let text := "Block\nStringLiteral(value=\"it's\\n\")\nInvoke(function_name='f', args=[])\n"
    n.outlineText? (-1) = some text ∧ ∀ m : Node, m.outlineText? (-1) = some text → n = m := by
  intro n text
  have h : n.outlineText? (-1) = some text := by
    rw [outlineText_of_isOverlong (by simp [n, findAll_eq, isOverlong, children])]
    simp only [n, outline_eq, children, List.flatMap_cons, List.flatMap_nil, List.append_nil]
    decide +kernel
  exact ⟨h, fun m hm => eq_of_outlineText (by decide) h hm⟩

/-- Two trees with the same text. They start at level -2, so none of their lines is indented. -/
theorem outlineText_level_minus_two :
    let text := "Block\nBlock\nNoneLiteral\nNoneLiteral\n"
    (block [block [none, none]]).outlineText? (-2) = some text ∧
      (block [block [none], none]).outlineText? (-2) = some text ∧
      block [block [none, none]] ≠ block [block [none], none] := by
  intro text
  refine ⟨?_, ?_, by simp⟩
  · rw [outlineText_of_isOverlong (by simp [findAll_eq, isOverlong, children])]
    simp only [outline_eq, children, List.flatMap_cons, List.flatMap_nil, List.append_nil]
    decide +kernel
  · rw [outlineText_of_isOverlong (by simp [findAll_eq, isOverlong, children])]
    simp only [outline_eq, children, List.flatMap_cons, List.flatMap_nil, List.append_nil]
    decide +kernel

end Kestrel.Node
