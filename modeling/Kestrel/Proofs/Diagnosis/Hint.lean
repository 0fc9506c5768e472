import Kestrel.Proofs.Diagnosis.Place

/-!
# Which hints are given

The hint at an open brace is meant for texts that end too early. It is given where a closing brace is
wanted, or where the text has no line any more. But what is wanted is an operand, an expression or the end of
the text, and the place of a fault is always in a line of the text. So the hint is never given.

* `mem_hints_brace` — when the hint would be given;
* `lineIndex_lt_of_placeOf` — the line of a place is a line of the text as it was written;
* `brace_not_mem_suggestions` — no report gives the hint.
-/

namespace Kestrel

namespace Diagnosis

theorem Hint.text_injective : Function.Injective Hint.text := by
  intro a b h
  cases a <;> cases b <;> first | rfl | exact absurd h (by decide)

/-- The hint at an open brace, and what it depends on. -/
theorem mem_hints_brace {got line : List Char} {expected : List String} :
    Hint.brace ∈ hints got expected line ↔
      occursIn "'\x7d'".toList (" ".intercalate expected).toList = true ∨
        got = "end of input".toList := by
  have hne {h : Hint} (hh : Hint.brace ≠ h) : (Hint.brace = h) = False := eq_false hh
  simp only [hints, List.mem_append, List.mem_ite_nil_right, List.mem_singleton, Bool.or_eq_true,
    decide_eq_true_eq, and_true, and_false, or_false, hne (h := .paren) nofun, hne (h := .loop) nofun,
    hne (h := .functionBody) nofun, hne (h := .comparison) nofun]

/-- No reader of a text asks for a closing brace. -/
theorem brace_not_wanted (m : Misreading) :
    occursIn "'\x7d'".toList (" ".intercalate m.wanted).toList = false := by
  cases m <;> decide

/-- The line of a place is a line of the text as it was written. -/
theorem lineIndex_lt_of_placeOf (cs : List Char) (n : Nat) :
    (placeOf (Text.expandTabs cs) n).line - 1 < (Text.lines cs).length := by
  obtain ⟨front, -, -, hline⟩ := exists_line_placeOf (Text.expandTabs cs) n
  obtain ⟨hlt, -⟩ := List.getElem?_eq_some_iff.mp hline
  rwa [Text.lines_expandTabs, List.length_map] at hlt

end Diagnosis

open Diagnosis

/-- No report about a text gives the hint at an open brace. -/
theorem brace_not_mem_suggestions {α : Type} {read : List Char → Except Reader.Rejection α}
    {source filename : String} {e : ParseError}
    (h : parseWith read source filename = .error (.parse e)) : Hint.brace.text ∉ e.suggestions := by
  obtain ⟨m, n, -, rfl⟩ := exists_ofMisreading h
  have hfound := found_ne_endOfInput (lineIndex_lt_of_placeOf source.toList n)
    (placeOf (Text.expandTabs source.toList) n).column
  rintro hmem
  obtain ⟨hint, hhint, htext⟩ := List.mem_map.mp hmem
  rw [Hint.text_injective htext] at hhint
  obtain hwanted | hgot := mem_hints_brace.mp hhint
  · rw [brace_not_wanted m] at hwanted
    cases hwanted
  · refine hfound (String.toList_inj.mp ?_)
    rw [← hgot]
    congr 2

end Kestrel
