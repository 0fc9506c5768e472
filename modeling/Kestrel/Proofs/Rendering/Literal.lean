import Kestrel.Proofs.Reading.Operand
import Kestrel.Proofs.Rendering.Basic

/-!
# Literals read back

The digits of a number stand for the number (`digitsValue_toDigits`), and a text with its escapes
resolved is the text (`unescapeFrom_escaped`), so a literal that is written is read as itself.
-/

namespace Kestrel.Written

open Reader Text

/-! ### Numbers -/

theorem decimalDigit?_of_isDigit {c : Char} (h : c.isDigit = true) :
    decimalDigit? c = some (c.toNat - '0'.toNat) := by
  simp only [Char.isDigit, Bool.and_eq_true, decide_eq_true_eq, UInt32.le_iff_toNat_le] at h
  have hlow : c.toNat < 0x80 := by
    have h9 : c.toNat ≤ 57 := h.2
    omega
  have hrange : '0' ≤ c ∧ c ≤ '9' := by
    simp only [Char.le_def, UInt32.le_iff_toNat_le]
    exact h
  simp [decimalDigit?, hlow, hrange]

theorem isDigit_of_mem_digits {n : Nat} {c : Char} (h : c ∈ Nat.toDigits 10 n) :
    c.isDigit = true :=
  Nat.isDigit_of_mem_toDigits (by decide) (by decide) h

/-- The digits of a number are an integer token. -/
theorem valid_int {n : Nat} (h : (Nat.toDigits 10 n).length ≤ 4300) :
    (Token.int (Nat.toDigits 10 n)).valid = true := by
  have hall : ∀ c ∈ Nat.toDigits 10 n, isDecimalDigit c = true := fun c hc => by
    simp [isDecimalDigit, decimalDigit?_of_isDigit (isDigit_of_mem_digits hc)]
  simp only [Token.valid, Bool.and_eq_true, Bool.not_eq_true', List.isEmpty_eq_false_iff,
    List.all_eq_true, decide_eq_true_eq]
  exact ⟨⟨Nat.toDigits_ne_nil, hall⟩, h⟩

/-- Digits read from the left, as the reader and as the library read them. -/
theorem foldl_filterMap_decimalDigit {cs : List Char} (h : ∀ c ∈ cs, c.isDigit = true) (n : Nat) :
    (cs.filterMap decimalDigit?).foldl (fun n d => 10 * n + d) n = Nat.ofDigitChars 10 cs n := by
  induction cs generalizing n with
  | nil => simp
  | cons c cs ih =>
    have hc := decimalDigit?_of_isDigit (h c (List.mem_cons_self ..))
    rw [List.filterMap_cons_some hc, List.foldl_cons, Nat.ofDigitChars_cons]
    exact ih (fun d hd => h d (List.mem_cons_of_mem _ hd)) _

/-- The digits of a number stand for it. -/
theorem digitsValue_toDigits (n : Nat) : digitsValue (Nat.toDigits 10 n) = n := by
  rw [digitsValue, ofDigits, foldl_filterMap_decimalDigit fun c hc => isDigit_of_mem_digits hc]
  exact Nat.ofDigitChars_ten_toDigits

/-! ### Texts -/

/-- A character needs a backslash, or stands for itself between quotes. -/
theorem escaped_cases (c : Char) :
    (∃ d, escaped c = ['\\', d] ∧ d ≠ '\n' ∧ ∀ cs, escape (d :: cs) = (c, 1)) ∨
      (escaped c = [c] ∧ c ≠ '"' ∧ c ≠ '\\' ∧ c ≠ '\n' ∧ c ≠ '\r') := by
  unfold escaped
  split
  · rename_i h
    rcases h with rfl | rfl
    · exact .inl ⟨'"', rfl, by decide, fun cs => rfl⟩
    · exact .inl ⟨'\\', rfl, by decide, fun cs => rfl⟩
  · rename_i h
    obtain ⟨hquote, hslash⟩ := not_or.mp h
    split
    · rename_i h
      exact .inl ⟨'n', rfl, by decide, fun cs => by rw [h]; rfl⟩
    · split
      · rename_i h
        exact .inl ⟨'r', rfl, by decide, fun cs => by rw [h]; rfl⟩
      · split
        · rename_i h
          exact .inl ⟨'t', rfl, by decide, fun cs => by rw [h]; rfl⟩
        · exact .inr ⟨rfl, hquote, hslash, ‹_›, ‹_›⟩

/-- An escaped text can stand between quotes. -/
theorem isQuotable_escaped (cs : List Char) : isQuotable (cs.flatMap escaped) = true := by
  induction cs with
  | nil => rfl
  | cons c cs ih =>
    rw [List.flatMap_cons]
    rcases escaped_cases c with ⟨d, hd, hfeed, -⟩ | ⟨hc, hquote, hslash, hfeed, hreturn⟩
    · rw [hd]
      simp [isQuotable, hfeed, ih]
    · rw [hc, List.singleton_append, isQuotable]
      · simp [hquote, hslash, hfeed, hreturn, ih]
      · intro d ds hd
        exact absurd hd hslash

/-- Resolving the escapes gives the text back. -/
theorem unescapeFrom_escaped (cs : List Char) : unescapeFrom 0 (cs.flatMap escaped) = cs := by
  induction cs with
  | nil => rfl
  | cons c cs ih =>
    rw [List.flatMap_cons]
    rcases escaped_cases c with ⟨d, hd, -, hescape⟩ | ⟨hc, -, hslash, -⟩
    · rw [hd]
      simp [unescapeFrom, hescape, ih]
    · rw [hc]
      simp [unescapeFrom, hslash, ih]

/-- The reader finds a placeholder exactly where a dollar sign and an opening brace stand side by
side. -/
theorem hasPlaceholder_iff (cs : List Char) : hasPlaceholder cs = true ↔ ['$', '{'] <:+: cs := by
  induction cs with
  | nil => simp [hasPlaceholder]
  | cons c cs ih =>
    rw [List.infix_cons_iff, ← ih]
    cases cs with
    | nil => simp [hasPlaceholder]
    | cons d ds =>
      rw [hasPlaceholder, Bool.or_eq_true, Bool.and_eq_true, List.cons_prefix_cons,
        List.cons_prefix_cons]
      simp only [List.head?_cons, decide_eq_true_eq, Option.some.injEq, List.nil_prefix, and_true]
      rw [eq_comm, @eq_comm Char d]

theorem valid_textToken (s : String) : (textToken s).valid = true :=
  isQuotable_escaped s.toList

theorem reads_textToken {expression : Rule Node} {bound : Nat} (s : String) (us : List Token) :
    Reads (operand expression bound) (textToken s :: us) (stringNode s.toList) us := by
  have h : Reads (operand expression bound) _ _ us :=
    reads_operand_string (s.toList.flatMap escaped) us
  rw [unescapeFrom_escaped] at h
  exact h

theorem stringNode_of_not_infix {s : String} (h : ¬['$', '{'] <:+: s.toList) :
    stringNode s.toList = .str s := by
  rw [stringNode, if_neg (fun e => h ((hasPlaceholder_iff _).mp e)), String.ofList_toList]

theorem stringNode_of_infix {s : String} (h : ['$', '{'] <:+: s.toList) :
    stringNode s.toList = .template s := by
  rw [stringNode, if_pos ((hasPlaceholder_iff _).mpr h), String.ofList_toList]

end Kestrel.Written
