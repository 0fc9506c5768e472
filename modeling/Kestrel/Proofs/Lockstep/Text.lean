import Kestrel.Reader.Program

/-!
# Whole texts

A text is read if a rule matches at its start and nothing but layout is left behind what it reads.

* `readStatements_eq_ok_iff`, `readExpression_eq_ok_iff` — for texts without tabs;
* `parseProgram_eq_ok_iff`, `parseExpression_eq_ok_iff` — for texts as they are written.
-/

namespace Kestrel

namespace Reader

variable {cs : List Char} {es : List Node} {e : Node}

theorem atEnd_eq_ok_iff {α : Type} {a b : α} {c : Cursor} :
    atEnd a c = .ok b ↔ a = b ∧ c.skip.rest = [] := by
  rw [atEnd]
  split
  next hend => simpa using fun _ => List.isEmpty_iff.mp hend
  next hend =>
    refine iff_of_false nofun fun h => hend ?_
    rw [h.2]
    rfl

/-- The statements of a text are those that can be read one after another up to its end. -/
theorem readStatements_eq_ok_iff :
    readStatements cs = .ok es ↔
      ∃ c, Rule.many (statementAt (readingBound cs)) (readingBound cs) (Cursor.start cs) = .ok es c ∧
        c.skip.rest = [] := by
  rw [readStatements]
  generalize Rule.many (statementAt (readingBound cs)) (readingBound cs) (Cursor.start cs) = r
  cases r with
  | ok es' c =>
    dsimp only
    rw [atEnd_eq_ok_iff]
    constructor
    · rintro ⟨rfl, hend⟩
      exact ⟨c, rfl, hend⟩
    · rintro ⟨_, ⟨⟩, hend⟩
      exact ⟨rfl, hend⟩
  | no | halt => exact iff_of_false nofun nofun

/-- The expression of a text is the one that can be read up to its end. -/
theorem readExpression_eq_ok_iff :
    readExpression cs = .ok e ↔
      ∃ c, expressionAt (readingBound cs) (Cursor.start cs) = .ok e c ∧ c.skip.rest = [] := by
  rw [readExpression, expressionAt]
  generalize chainAt (readingBound cs) (Cursor.start cs) = next
  cases next with
  | done e' c =>
    dsimp only
    rw [atEnd_eq_ok_iff]
    constructor
    · rintro ⟨rfl, hend⟩
      exact ⟨c, rfl, hend⟩
    · rintro ⟨_, ⟨⟩, hend⟩
      exact ⟨rfl, hend⟩
  | more | failed | halt => exact iff_of_false nofun nofun

end Reader

variable {source filename : String}

theorem parseWith_eq_ok_iff {α : Type} {read : List Char → Except Reader.Rejection α} {a : α} :
    parseWith read source filename = .ok a ↔ read (Text.expandTabs source.toList) = .ok a := by
  rw [parseWith]
  cases read (Text.expandTabs source.toList) with
  | ok a' => simp
  | error r => simp

theorem parseProgram_eq_ok_iff {es : List Node} :
    parseProgram source filename = .ok es ↔
      Reader.readStatements (Text.expandTabs source.toList) = .ok es :=
  parseWith_eq_ok_iff

theorem parseExpression_eq_ok_iff {e : Node} :
    parseExpression source filename = .ok e ↔
      Reader.readExpression (Text.expandTabs source.toList) = .ok e :=
  parseWith_eq_ok_iff

end Kestrel
