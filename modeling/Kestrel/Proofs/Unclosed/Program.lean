import Kestrel.Proofs.Diagnosis.Hint
import Kestrel.Proofs.Lockstep.Progress
import Kestrel.Proofs.Lockstep.Text
import Kestrel.Proofs.Unclosed.Statement

/-!
# Programs without their last brace

If the last character of a program is a closing brace and in no comment, it closes the last statement. Without
it that statement is left unread, or a part of it behind an `else`, and the report says so. It does not say
that a brace is missing.

* `readStatements_unclosed` — for texts without tabs;
* `parseProgram_unclosed` — for texts as they are written;
* `parseProgram_open_brace` — an empty block that stays open.
-/

namespace Kestrel

open Diagnosis

namespace Reader

/-- Without its last brace a text is misread: something is left where it should end. -/
theorem readStatements_unclosed {cs : List Char} {es : List Node}
    (h : readStatements (cs ++ ['}']) = .ok es) (hsealed : Sealed (cs ++ ['}'])) :
    ∃ rest, rest ≠ [] ∧ rest <:+ cs ∧ readStatements cs = .error (.misread .leftover rest) := by
  obtain ⟨d, hes, hd⟩ := readStatements_eq_ok_iff.mp h
  have hlt : readingBound cs < readingBound (cs ++ ['}']) := by
    rw [readingBound, readingBound, List.length_append, List.length_singleton]
    omega
  have hbound : cs.length < readingBound cs := Nat.lt_add_of_pos_right Nat.two_pos
  have hclips : Clips (Cursor.start cs) (Cursor.start (cs ++ ['}'])) := .of_rest rfl rfl hsealed
  have hbreak := loses_statements (loses_statementAt hlt) (Nat.zero_lt_of_lt hlt) hlt _ _ hclips
    (statements_ne_exhausted hbound)
  have hspends := (spends_statementAt hbound).many hbound (Cursor.start cs) (Nat.le_refl _)
  rw [hes] at hbreak
  rw [readStatements]
  generalize hmany : Rule.many _ _ (Cursor.start cs) = r at hbreak hspends
  cases hbreak with
  | same hmatch =>
    -- what is left with the brace is at least the brace
    cases hmatch with
    | ok _ hclips' =>
      have hrest := hclips'.rest
      rw [hd] at hrest
      exact absurd hrest.symm (List.append_ne_nil_of_right_ne_nil _ (List.cons_ne_nil _ _))
  | missing => exact absurd hmany (Written.many_ne_no _ _)
  | @early es' _ c _ hopen _ =>
    have hne : c.skip.rest ≠ [] := fun hnil => hopen (.of_skip hnil)
    refine ⟨c.skip.rest, hne, (skip_suffix c).trans hspends.1, ?_⟩
    dsimp only
    rw [atEnd, if_neg fun hempty => hne (List.isEmpty_iff.mp hempty)]

end Reader

theorem expandTabs_concat {z : Char} (hz : z ≠ '\t') (cs : List Char) :
    Text.expandTabs (cs ++ [z]) = Text.expandTabs cs ++ [z] := by
  obtain ⟨column, happend⟩ := Written.exists_expandTabsFrom_append 0 cs
  obtain ⟨column', hcons⟩ := Written.exists_expandTabsFrom_cons hz column
  rw [Text.expandTabs, happend, hcons]
  rfl

/-- Where the last character of a program is a closing brace and in no comment, the text without it is no
program. The report says that something is left in front of the end of the text, and it does not give the
hint at an open brace. -/
theorem parseProgram_unclosed {s filename : String} {es : List Node}
    (h : parseProgram (s ++ "\x7d") filename = .ok es) (hsealed : Reader.Sealed (s ++ "\x7d").toList) :
    ∃ e, parseProgram s filename = .error (.parse e) ∧ e.message = "Expected end of text" ∧
      e.location < (Text.expandTabs s.toList).length ∧ Hint.brace.text ∉ e.suggestions := by
  have htext : Text.expandTabs (s ++ "\x7d").toList = Text.expandTabs s.toList ++ ['}'] := by
    rw [String.toList_append]
    exact expandTabs_concat (by decide) s.toList
  have hread := parseProgram_eq_ok_iff.mp h
  have hsealed' := hsealed.expandTabsFrom 0
  rw [← Text.expandTabs, htext] at hsealed'
  rw [htext] at hread
  obtain ⟨rest, hne, hsuffix, hmisread⟩ := Reader.readStatements_unclosed hread hsealed'
  have hparse : parseProgram s filename = .error (.parse (.ofMisreading s.toList filename .leftover
      (placeOf (Text.expandTabs s.toList) ((Text.expandTabs s.toList).length - rest.length)))) := by
    rw [parseProgram, parseWith, hmisread]
    rfl
  refine ⟨_, hparse, rfl, ?_, brace_not_mem_suggestions hparse⟩
  have hpos : 0 < rest.length := List.length_pos_of_ne_nil hne
  have hle := hsuffix.length_le
  change (((Text.expandTabs s.toList).length - rest.length : Nat) : Int) < _
  omega

/-- A function whose body stays open. -/
theorem parseProgram_unclosed_function :
    ∃ e, parseProgram "function f() \x7b 1; " "" = .error (.parse e) ∧
      e.message = "Expected end of text" ∧ e.location < 18 ∧ Hint.brace.text ∉ e.suggestions := by
  have h : parseProgram ("function f() \x7b 1; " ++ "\x7d") "" =
      .ok [.declare "f" [] (.block [.int 1])] := by rfl
  exact parseProgram_unclosed h (by decide +kernel)

/-- An empty block that stays open is reported without any hint. -/
theorem parseProgram_open_brace :
    parseProgram "\x7b\x7d" "" = .ok [.block []] ∧
      ∃ e, parseProgram "\x7b" "" = .error (.parse e) ∧ e.suggestions = [] :=
  ⟨rfl, _, rfl, rfl⟩

end Kestrel
