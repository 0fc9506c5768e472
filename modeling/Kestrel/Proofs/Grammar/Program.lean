import Kestrel.Proofs.Grammar.Statement
import Kestrel.Proofs.Written.Tabs
import Kestrel.Reader.Program

/-!
# Programs and the grammar

A text of tokens is read as a program exactly when the tokens are one by the grammar
(`parseProgram_isOk_iff`). Which program it is, where the grammar leaves a choice, is another matter.
-/

namespace Kestrel.Written

open Reader Text

/-! ### Tabs -/

/-- A token becomes one of the same kind. -/
theorem exists_spell_eq_expandTabsFrom {t : Token} (h : t.valid = true) (column : Nat) :
    ∃ t' : Token, t'.valid = true ∧ t'.terminal = t.terminal ∧
      t'.spell = expandTabsFrom column t.spell := by
  by_cases htext : ∃ raw, t = .string raw
  · obtain ⟨raw, rfl⟩ := htext
    obtain ⟨column₁, h₁⟩ := exists_expandTabsFrom_cons (show '"' ≠ '\t' by decide) column
    obtain ⟨column₂, h₂⟩ := exists_expandTabsFrom_append column₁ raw
    have hquote : expandTabsFrom column₂ ['"'] = ['"'] := expandTabsFrom_eq_self (by decide) column₂
    refine ⟨.string (expandTabsFrom column₁ raw), isQuotable_expandTabsFrom h column₁, rfl, ?_⟩
    rw [Token.spell, Token.spell, List.cons_append, List.cons_append, h₁, h₂, hquote]
  · have htab : '\t' ∉ t.spell := tab_not_mem_spell h fun raw hraw => htext ⟨raw, hraw⟩
    exact ⟨t, h, rfl, (expandTabsFrom_eq_self htab column).symm⟩

/-- A text of tokens becomes one of tokens of the same kinds. -/
theorem exists_write_eq_expandTabsFrom {ts : List Token} (h : ∀ t ∈ ts, t.valid = true)
    (column : Nat) :
    ∃ us : List Token, (∀ u ∈ us, u.valid = true) ∧
      ts.map Token.terminal = us.map Token.terminal ∧ write us = expandTabsFrom column (write ts) := by
  induction ts generalizing column with
  | nil => exact ⟨[], by simp, rfl, rfl⟩
  | cons t ts ih =>
    obtain ⟨ht, hts⟩ := List.forall_mem_cons.mp h
    obtain ⟨t', ht', hkind, hspell⟩ := exists_spell_eq_expandTabsFrom ht column
    obtain ⟨column₁, h₁⟩ := exists_expandTabsFrom_append column t.spell
    cases ts with
    | nil =>
      refine ⟨[t'], by simpa using ht', by simp [hkind], ?_⟩
      simp [write_cons, hspell]
    | cons u us =>
      obtain ⟨column₂, h₂⟩ :=
        exists_expandTabsFrom_cons (show ' ' ≠ '\t' by decide) column₁
      obtain ⟨vs, hvs, hkinds, hwrite⟩ := ih hts column₂
      have hgap : gapped vs = ' ' :: write vs := by
        cases vs with
        | nil => cases hkinds
        | cons v vs => rfl
      refine ⟨t' :: vs, List.forall_mem_cons.mpr ⟨ht', hvs⟩, ?_, ?_⟩
      · rw [List.map_cons, hkinds, ← hkind]
        rfl
      · rw [write_cons, write_cons, h₁, gapped_cons, h₂, ← hwrite, hspell, hgap]


/-! ### Whole programs -/

theorem eq_nil_of_write_eq_nil {ts : List Token} (h : ∀ t ∈ ts, t.valid = true) (hts : write ts = []) :
    ts = [] := by
  have hlength := length_le_length_write h
  rw [hts] at hlength
  exact List.eq_nil_of_length_eq_zero (Nat.le_zero.mp hlength)

/-- A text without tabs is read if its tokens are a program. -/
theorem readStatements_isOk_iff {ts : List Token} (h : ∀ t ∈ ts, t.valid = true) :
    (∃ program, readStatements (write ts) = .ok program) ↔ IsProgram ts := by
  have hlength : ts.length ≤ (write ts).length + 1 := Nat.le_succ_of_le (length_le_length_write h)
  have hend : Closes (· = []) := by
    rintro ts rfl t ht
    cases ht
  have hparses : Parses ((write ts).length + 1)
      (Rule.many (statementAt (readingBound (write ts))) (readingBound (write ts)))
      (Derives [Phrase.program]) (· = []) :=
    parses_statements hend (Nat.le_refl _) (Nat.lt_succ_self _) fun g hg => parses_statementAt _ hg
  cases hparses _ ts (Stands.start h) hlength with
  | no hno => exact absurd hno (many_ne_no _ _)
  | @ok program c us vs hread hsplit hvs hus hf =>
    have hvalid : ∀ t ∈ vs, t.valid = true := fun t ht => h t (by simp [hsplit, ht])
    have hrun : readStatements (write ts) = atEnd program c := by rw [readStatements, hread]
    constructor
    · rintro ⟨program', hok⟩
      have hempty : vs = [] := by
        rw [hrun, atEnd, hvs.rest] at hok
        split at hok
        · rename_i hwrite
          exact eq_nil_of_write_eq_nil hvalid (List.isEmpty_iff.mp hwrite)
        · cases hok
      rw [IsProgram, hsplit, hempty, List.append_nil]
      exact hus
    · intro hprogram
      have hempty : vs = [] := hf ⟨ts, [], (List.append_nil ts).symm, hprogram, rfl⟩
      refine ⟨program, hrun.trans ?_⟩
      rw [atEnd, hvs.rest, hempty]
      rfl

/-- A text of tokens is accepted if and only if the tokens are a program. -/
theorem parseProgram_isOk_iff {ts : List Token} (h : ∀ t ∈ ts, t.valid = true) (filename : String) :
    (∃ program, parseProgram (String.ofList (write ts)) filename = .ok program) ↔ IsProgram ts := by
  obtain ⟨us, hus, hkinds, hwrite⟩ := exists_write_eq_expandTabsFrom h 0
  have hsame : IsProgram ts ↔ IsProgram us :=
    ⟨fun hts => hts.congr hkinds, fun hus => hus.congr hkinds.symm⟩
  rw [hsame, ← readStatements_isOk_iff hus]
  simp only [parseProgram, parseWith, String.toList_ofList, expandTabs, ← hwrite]
  cases readStatements (write us) with
  | ok program => simp
  | error r => simp

/-- A difference is a program, since it is read as one. -/
theorem isProgram_difference :
    IsProgram [.name "a", .sign (.binary .sub), .name "b"] :=
  (parseProgram_isOk_iff (by decide) "difference.k").mp ⟨[.binary .sub (.var "a") (.var "b")], by rfl⟩

end Kestrel.Written
