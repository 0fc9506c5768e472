import Mathlib.Algebra.Group.Nat.Defs
import Kestrel.Reader.Token
import Kestrel.Text.Quoted

/-!
# Quoted texts can be read back

In a quoted text every character is written in a way that tells where it ends. So a quoted text can be read
back, whatever comes after it, and it stands in one line.

* `hexValue`, `hexValue_hexDigits` — the number that hexadecimal digits stand for;
* `escapeChar_cases` — how a character is written inside quotes;
* `quotedChar?`, `quotedChar?_escapeChar` — the first character inside quotes;
* `quoteChars_append_inj` — a quoted text and what comes after it;
* `Printable`, `printable_quoteChars` — a quoted text can be printed, so it stands in one line.
-/

namespace Kestrel.Text

/-! ### Hexadecimal digits -/

/-- The number that hexadecimal digits stand for. -/
def hexValue (ds : List Char) : Nat :=
  ds.foldl (fun n d => 16 * n + (Reader.hexDigit? d).getD 0) 0

theorem hexDigit?_digitChar {n : Nat} (h : n < 16) : Reader.hexDigit? (Nat.digitChar n) = some n := by
  have hall : ∀ n < 16, Reader.hexDigit? (Nat.digitChar n) = some n := by decide
  exact hall n h

theorem hexValue_hexDigits (width n : Nat) : hexValue (hexDigits width n) = n % 16 ^ width := by
  induction width generalizing n with
  | zero => rw [Nat.pow_zero, Nat.mod_one]; rfl
  | succ width ih =>
    have hlast : n % 16 < 16 := Nat.mod_lt n (by decide)
    rw [hexDigits, hexValue, List.foldl_append, ← hexValue, ih, List.foldl_cons, List.foldl_nil,
      hexDigit?_digitChar hlast, Option.getD_some, Nat.pow_succ', Nat.mod_mul, Nat.add_comm]

theorem ofNat_hexValue {c : Char} {width : Nat} (h : c.toNat < 16 ^ width) :
    Char.ofNat (hexValue (hexDigits width c.toNat)) = c := by
  rw [hexValue_hexDigits, Nat.mod_eq_of_lt h, Char.ofNat_toNat]

/-! ### Characters inside quotes -/

/-- The character whose code point is written in so many hexadecimal digits, and what comes after them. -/
def numberedChar (width : Nat) (cs : List Char) : Char × List Char :=
  (Char.ofNat (hexValue (cs.take width)), cs.drop width)

/-- The character that is written behind a backslash, and what comes after it. -/
def escapedChar? : List Char → Option (Char × List Char)
  | [] => none
  | c :: cs =>
    some <|
      if c = 'n' then ('\n', cs)
      else if c = 'r' then ('\r', cs)
      else if c = 't' then ('\t', cs)
      else if c = 'x' then numberedChar 2 cs
      else if c = 'u' then numberedChar 4 cs
      else if c = 'U' then numberedChar 8 cs
      else (c, cs)

/-- The first character inside quotes, and what comes after it. -/
def quotedChar? : List Char → Option (Char × List Char)
  | [] => none
  | c :: cs => if c = '\\' then escapedChar? cs else some (c, cs)

theorem numberedChar_hexDigits {c : Char} {width : Nat} (h : c.toNat < 16 ^ width) (cs : List Char) :
    numberedChar width (hexDigits width c.toNat ++ cs) = (c, cs) := by
  have hlength := length_hexDigits width c.toNat
  rw [numberedChar, List.take_left' hlength, List.drop_left' hlength, ofNat_hexValue h]

/-- The marks around quoted texts. -/
def quoteMarks : List Char := ['\'', '"']

theorem quoteMark_mem (cs : List Char) : quoteMark cs ∈ quoteMarks := by
  rw [quoteMark]
  split <;> decide

/-! ### Escapes -/

/-- Eight digits are enough for every code point. -/
theorem toNat_lt (c : Char) : c.toNat < 16 ^ 8 :=
  Nat.lt_of_lt_of_le c.val.toNat_lt (by decide)

/-- The letters behind the backslash of a code point, and how many digits follow them. -/
def digitCounts : List (Char × Nat) := [('x', 2), ('u', 4), ('U', 8)]

/-- A code point is written in digits enough. -/
theorem codePointEscape_eq (c : Char) :
    ∃ x width, (x, width) ∈ digitCounts ∧ c.toNat < 16 ^ width ∧
      codePointEscape c.toNat = '\\' :: x :: hexDigits width c.toNat := by
  rw [codePointEscape]
  split
  next h => exact ⟨'x', 2, by decide, h, rfl⟩
  next =>
    split
    next h => exact ⟨'u', 4, by decide, h, rfl⟩
    next => exact ⟨'U', 8, by decide, toNat_lt c, rfl⟩

/-- The control characters with an escape of their own, and its letter. -/
def controlLetters : List (Char × Char) := [('\n', 'n'), ('\r', 'r'), ('\t', 't')]

/-- A character inside quotes is written behind a backslash, as a letter behind a backslash, as it is, or as
a code point. -/
theorem escapeChar_cases (mark c : Char) :
    ((c = mark ∨ c = '\\') ∧ escapeChar mark c = ['\\', c]) ∨
      (∃ letter, (c, letter) ∈ controlLetters ∧ escapeChar mark c = ['\\', letter]) ∨
        (c ≠ mark ∧ c ≠ '\\' ∧ isPrintable c = true ∧ escapeChar mark c = [c]) ∨
          escapeChar mark c = codePointEscape c.toNat := by
  rw [escapeChar]
  split
  next h => exact .inl ⟨h, rfl⟩
  next h =>
  obtain ⟨hmark, hbackslash⟩ := not_or.mp h
  split
  next hc => exact .inr (.inl ⟨'n', by rw [hc]; decide, rfl⟩)
  next =>
  split
  next hc => exact .inr (.inl ⟨'r', by rw [hc]; decide, rfl⟩)
  next =>
  split
  next hc => exact .inr (.inl ⟨'t', by rw [hc]; decide, rfl⟩)
  next =>
  split
  next hprint => exact .inr (.inr (.inl ⟨hmark, hbackslash, hprint, rfl⟩))
  next => exact .inr (.inr (.inr rfl))

section Mark

variable {mark : Char} (hmark : mark ∈ quoteMarks)
include hmark

/-- A character inside quotes can be read back. -/
theorem quotedChar?_escapeChar (c : Char) (cs : List Char) :
    quotedChar? (escapeChar mark c ++ cs) = some (c, cs) := by
  obtain ⟨hc, h⟩ | ⟨letter, hletter, h⟩ | ⟨-, hc, -, h⟩ | h := escapeChar_cases mark c
  · have hself : c = '\'' ∨ c = '"' ∨ c = '\\' := by
      simp only [quoteMarks, List.mem_cons, List.not_mem_nil, or_false] at hmark
      obtain rfl | rfl := hc
      · exact hmark.imp_right .inl
      · exact .inr (.inr rfl)
    rw [h]
    obtain rfl | rfl | rfl := hself <;> rfl
  · simp only [controlLetters, List.mem_cons, Prod.mk.injEq, List.not_mem_nil, or_false] at hletter
    rw [h]
    obtain ⟨rfl, rfl⟩ | ⟨rfl, rfl⟩ | ⟨rfl, rfl⟩ := hletter <;> rfl
  · rw [h, List.singleton_append, quotedChar?, if_neg hc]
  · obtain ⟨x, width, hx, hlt, hescape⟩ := codePointEscape_eq c
    have hnumbered := numberedChar_hexDigits hlt cs
    simp only [digitCounts, List.mem_cons, Prod.mk.injEq, List.not_mem_nil, or_false] at hx
    rw [h, hescape]
    obtain ⟨rfl, rfl⟩ | ⟨rfl, rfl⟩ | ⟨rfl, rfl⟩ := hx <;> exact congrArg some hnumbered

/-- A character inside quotes does not start with the mark. -/
theorem exists_escapeChar_cons (c : Char) : ∃ d ds, escapeChar mark c = d :: ds ∧ d ≠ mark := by
  have hbackslash : '\\' ≠ mark := by
    rintro rfl
    exact absurd hmark (by decide)
  obtain ⟨-, h⟩ | ⟨letter, -, h⟩ | ⟨hc, -, -, h⟩ | h := escapeChar_cases mark c
  · exact ⟨_, _, h, hbackslash⟩
  · exact ⟨_, _, h, hbackslash⟩
  · exact ⟨_, _, h, hc⟩
  · obtain ⟨x, width, -, -, hescape⟩ := codePointEscape_eq c
    exact ⟨_, _, h.trans hescape, hbackslash⟩

/-- The mark ends a quoted text. -/
theorem escapeChars_append_inj {cs cs' ds ds' : List Char}
    (h : cs.flatMap (escapeChar mark) ++ mark :: ds = cs'.flatMap (escapeChar mark) ++ mark :: ds') :
    cs = cs' ∧ ds = ds' := by
  have hend (c : Char) (cs ds es : List Char) :
      mark :: ds ≠ (c :: cs).flatMap (escapeChar mark) ++ es := by
    obtain ⟨d, ds', hd, hne⟩ := exists_escapeChar_cons hmark c
    rw [List.flatMap_cons, hd]
    exact fun heq => hne (List.cons.inj heq).1.symm
  induction cs generalizing cs' with
  | nil =>
    cases cs' with
    | nil => exact ⟨rfl, (List.cons.inj h).2⟩
    | cons c' cs' => exact absurd h (hend c' cs' ds _)
  | cons c cs ih =>
    cases cs' with
    | nil => exact absurd h.symm (hend c cs ds' _)
    | cons c' cs' =>
      rw [List.flatMap_cons, List.flatMap_cons, List.append_assoc, List.append_assoc] at h
      have hread := congrArg quotedChar? h
      rw [quotedChar?_escapeChar hmark, quotedChar?_escapeChar hmark] at hread
      obtain ⟨rfl, hrest⟩ := Prod.mk.inj (Option.some.inj hread)
      obtain ⟨rfl, rfl⟩ := ih hrest
      exact ⟨rfl, rfl⟩

end Mark

theorem quoteChars_append (cs ds : List Char) :
    quoteChars cs ++ ds =
      quoteMark cs :: (cs.flatMap (escapeChar (quoteMark cs)) ++ quoteMark cs :: ds) := by
  rw [quoteChars, List.append_assoc, List.singleton_append, List.cons_append]

/-- A quoted text and what comes after it can be told apart. -/
theorem quoteChars_append_inj {cs cs' ds ds' : List Char}
    (h : quoteChars cs ++ ds = quoteChars cs' ++ ds') : cs = cs' ∧ ds = ds' := by
  rw [quoteChars_append, quoteChars_append] at h
  obtain ⟨hmark, hrest⟩ := List.cons.inj h
  rw [hmark] at hrest
  exact escapeChars_append_inj (quoteMark_mem cs') hrest

/-! ### Printable characters -/

/-- All characters can be printed. -/
def Printable (cs : List Char) : Prop := ∀ c ∈ cs, isPrintable c = true

instance (cs : List Char) : Decidable (Printable cs) := List.decidableBAll (isPrintable · = true) cs

theorem printable_nil : Printable [] := List.forall_mem_nil _

theorem Printable.cons {c : Char} {cs : List Char} (hc : isPrintable c = true) (hcs : Printable cs) :
    Printable (c :: cs) := List.forall_mem_cons.mpr ⟨hc, hcs⟩

theorem Printable.append {cs ds : List Char} (hcs : Printable cs) (hds : Printable ds) :
    Printable (cs ++ ds) := List.forall_mem_append.mpr ⟨hcs, hds⟩

theorem printable_flatMap {α : Type} {as : List α} {f : α → List Char}
    (h : ∀ a ∈ as, Printable (f a)) : Printable (as.flatMap f) := by
  intro c hc
  obtain ⟨a, ha, hc⟩ := List.mem_flatMap.mp hc
  exact h a ha c hc

/-- What can be printed stands in one line. -/
theorem Printable.newline_not_mem {cs : List Char} (h : Printable cs) : '\n' ∉ cs :=
  fun hmem => absurd (h '\n' hmem) (by decide)

theorem printable_hexDigits (width n : Nat) : Printable (hexDigits width n) := by
  induction width generalizing n with
  | zero => exact printable_nil
  | succ width ih =>
    have hall : ∀ n < 16, isPrintable (Nat.digitChar n) = true := by decide
    exact (ih _).append (.cons (hall _ (Nat.mod_lt n (by decide))) printable_nil)

theorem printable_quoteMarks : Printable quoteMarks := by decide

/-- However a character is written inside quotes, what is written can be printed. -/
theorem printable_escapeChar {mark : Char} (hmark : mark ∈ quoteMarks) (c : Char) :
    Printable (escapeChar mark c) := by
  have hbackslash : isPrintable '\\' = true := by decide
  obtain ⟨hc, h⟩ | ⟨letter, hletter, h⟩ | ⟨-, -, hc, h⟩ | h := escapeChar_cases mark c
  · have hprint : isPrintable c = true := by
      obtain rfl | rfl := hc
      · exact printable_quoteMarks _ hmark
      · exact hbackslash
    rw [h]
    exact .cons hbackslash (.cons hprint printable_nil)
  · have hall : ∀ p ∈ controlLetters, isPrintable p.2 = true := by decide
    rw [h]
    exact .cons hbackslash (.cons (hall _ hletter) printable_nil)
  · rw [h]
    exact .cons hc printable_nil
  · obtain ⟨x, width, hx, -, hescape⟩ := codePointEscape_eq c
    have hall : ∀ p ∈ digitCounts, isPrintable p.1 = true := by decide
    rw [h, hescape]
    exact .cons hbackslash (.cons (hall _ hx) (printable_hexDigits width c.toNat))

/-- A quoted text can be printed, whatever the text. -/
theorem printable_quoteChars (cs : List Char) : Printable (quoteChars cs) := by
  have hmark := quoteMark_mem cs
  have hprint := printable_quoteMarks _ hmark
  have hchars : Printable (cs.flatMap (escapeChar (quoteMark cs))) :=
    printable_flatMap fun c _ => printable_escapeChar hmark c
  exact .cons hprint (hchars.append (.cons hprint printable_nil))

end Kestrel.Text
