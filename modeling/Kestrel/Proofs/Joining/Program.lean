import Kestrel.Proofs.Joining.Statement
import Kestrel.Proofs.Lockstep.Text

/-!
# Texts joined by a line feed

If a program ends with a semicolon or a closing brace that is not in a comment, another one may be written
below it. The statements of the two together are those of the first one and then those of the second one.

* `readStatements_join` — for texts without tabs;
* `parseProgram_append` — for texts as they are written.
-/

namespace Kestrel

namespace Reader

variable {cs ds : List Char} {es fs : List Node}

/-- After a line feed a text reads as it does at its start. -/
theorem extends_newline (before : Option Char) (cs : List Char) :
    Extends [] (Cursor.start cs) ⟨before, '\n' :: cs⟩ := by
  have h : Extends [] (Cursor.start cs) ⟨some '\n', cs⟩ :=
    .of_rest (List.append_nil cs).symm rfl .nil
  exact ⟨h.rest, h.word, h.joins⟩

/-- Two texts that can be read, joined by a line feed. -/
theorem readStatements_join (hcs : readStatements cs = .ok es) (hds : readStatements ds = .ok fs)
    (hsealed : Sealed cs) : readStatements (cs ++ '\n' :: ds) = .ok (es ++ fs) := by
  obtain ⟨c, hes, hc⟩ := readStatements_eq_ok_iff.mp hcs
  obtain ⟨d, hfs, hd⟩ := readStatements_eq_ok_iff.mp hds
  have hbound : readingBound (cs ++ '\n' :: ds) = readingBound cs + (ds.length + 1) := by
    simp only [readingBound, List.length_append, List.length_cons]
    omega
  have hlength : es.length < cs.length + 2 := length_lt_of_many hes
  -- the first text, with the second one behind it
  have hjoins : Joins cs ('\n' :: ds) := .inr ⟨hsealed, ds, rfl⟩
  have hextends : Extends ('\n' :: ds) (Cursor.start cs) (Cursor.start (cs ++ '\n' :: ds)) :=
    .of_rest rfl rfl hjoins
  have helse (before : Option Char) : NoElse ⟨before, '\n' :: ds⟩ :=
    (matches_keyword .else (extends_newline before ds)).eq_no_iff.mpr
      (noElse_of_many hfs (.of_skip hd))
  have hfirst := carries_statementAt helse (Nat.le_add_right (readingBound cs) (ds.length + 1))
  obtain ⟨c', hgoes, happend⟩ := carries_statements hfirst hextends hes (.of_skip hc)
  have hrest : c'.rest = '\n' :: ds := by
    obtain h | ⟨_, _, h⟩ := hgoes
    · exact absurd hc (h.joins.ne_nil (List.cons_ne_nil _ _))
    · exact h
  -- the second text, where the first one ends
  have hstart : Extends [] (Cursor.start ds) c' := by
    have h := extends_newline c'.before ds
    rw [← hrest] at h
    exact h
  have hle : readingBound ds ≤ readingBound cs + (ds.length + 1) := by
    simp only [readingBound]
    omega
  have hwithin : readingBound ds ≤ readingBound cs + (ds.length + 1) - es.length := by
    simp only [readingBound]
    omega
  have hsecond := carries_statementAt (t := []) (fun _ => (Closed.of_rest rfl).keyword .else) hle
  obtain ⟨d', hfs', hd'⟩ := carries_row hsecond hle hwithin hstart hfs (.of_skip hd)
    fun d' hgoes => hgoes.resolve_right fun ⟨h, _, _⟩ => h rfl
  have hboth := happend _ fs d' hfs'
  rw [Nat.add_sub_cancel' (by rw [readingBound]; omega), ← hbound] at hboth
  refine readStatements_eq_ok_iff.mpr ⟨d', hboth, ?_⟩
  rw [hd'.rest, hd, List.append_nil]

end Reader

/-- Two programs joined by a line feed are one program, if the first one ends with a semicolon or a
closing brace that is not in a comment. -/
theorem parseProgram_append {a b filename : String} {as bs : List Node}
    (ha : parseProgram a filename = .ok as) (hb : parseProgram b filename = .ok bs)
    (hsealed : Reader.Sealed a.toList) :
    parseProgram (a ++ "\n" ++ b) filename = .ok (as ++ bs) := by
  rw [parseProgram_eq_ok_iff] at ha hb ⊢
  have htext : (a ++ "\n" ++ b).toList = a.toList ++ '\n' :: b.toList := by
    rw [String.toList_append, String.toList_append, List.append_assoc]
    rfl
  rw [htext, Written.expandTabs_newline]
  exact Reader.readStatements_join ha hb (hsealed.expandTabsFrom 0)

end Kestrel
