import Kestrel.Reader.Token

/-!
# Tokens

The words and signs of which a program consists, each with its spelling, and the text in which they
stand in a row with one space between neighbours.

* `Token`, `Token.spell` — the tokens and how they are written;
* `Token.valid` — a token whose spelling is read back as this very token;
* `write` — a row of tokens as a text.

The class of a token can be told from its first character alone, so the lemmas below say what that
character is, for each class, and `write_cons` cuts a text behind its first token.
-/

namespace Kestrel.Written

open Reader Text

/-! ### Signs -/

/-- A punctuation mark or an operator. The minus sign is one sign, in front of an operand and between
two of them. -/
inductive Sign where
  /-- an operator between operands -/
  | binary (op : BinaryOp)
  | bang
  | assign
  | question
  | colon
  | range
  | comma
  | semicolon
  | openParen
  | closeParen
  | openBrace
  | closeBrace
  deriving DecidableEq, Repr

/-- How a sign is written. -/
def Sign.text : Sign → String
  | binary op => op.symbol
  | bang => "!"
  | assign => "="
  | question => "?"
  | colon => ":"
  | range => ".."
  | comma => ","
  | semicolon => ";"
  | openParen => "("
  | closeParen => ")"
  | openBrace => "\x7b"
  | closeBrace => "\x7d"

/-- The sign of an operator in front of its operand. -/
def unarySign : UnaryOp → Sign
  | .neg => .binary .sub
  | .not => .bang

/-! ### Tokens -/

/-- A token. -/
inductive Token where
  /-- an integer, by its digits -/
  | int (digits : List Char)
  /-- a text, as it is written between its quotes -/
  | string (raw : List Char)
  /-- a name -/
  | name (text : String)
  /-- a keyword -/
  | keyword (k : Keyword)
  /-- a punctuation mark or an operator -/
  | sign (s : Sign)
  deriving DecidableEq, Repr

/-- Are these characters a name? It starts with a letter or an underscore, goes on with letters,
underscores and digits, and is no keyword. -/
def isName (cs : List Char) : Bool :=
  cs.head?.any isNameStart && cs.all isNameChar && !Keyword.all.any (·.text.toList = cs)

theorem exists_cons_of_isName {cs : List Char} (h : isName cs = true) :
    ∃ x xs, cs = x :: xs ∧ isNameStart x = true := by
  simp only [isName, Bool.and_eq_true] at h
  obtain ⟨⟨hhead, -⟩, -⟩ := h
  cases cs with
  | nil => cases hhead
  | cons x xs => exact ⟨x, xs, rfl, hhead⟩

theorem isNameChar_of_isName {cs : List Char} (h : isName cs = true) : ∀ c ∈ cs, isNameChar c = true := by
  simp only [isName, Bool.and_eq_true, List.all_eq_true] at h
  exact h.1.2

/-- Can these characters stand between quotes? A backslash takes the next character with it, which may
be anything but a line feed; quotes, line feeds and carriage returns do not stand alone. -/
def isQuotable : List Char → Bool
  | [] => true
  | '\\' :: c :: cs => c ≠ '\n' && isQuotable cs
  | c :: cs => c ≠ '"' && c ≠ '\\' && c ≠ '\n' && c ≠ '\r' && isQuotable cs

namespace Token

/-- The spelling of a token. -/
def spell : Token → List Char
  | int digits => digits
  | string raw => '"' :: raw ++ ['"']
  | name text => text.toList
  | keyword k => k.text.toList
  | sign s => s.text.toList

/-- Is the token one that its spelling stands for? An integer has at least one digit and at most 4300,
a text can stand between quotes, and a name is a name. -/
def valid : Token → Bool
  | int digits => !digits.isEmpty && digits.all isDecimalDigit && digits.length ≤ 4300
  | string raw => isQuotable raw
  | name text => isName text.toList
  | keyword _ | sign _ => true

end Token

/-- A row of tokens as a text, with one space between neighbours. -/
def write (ts : List Token) : List Char :=
  [' '].intercalate (ts.map Token.spell)

/-- What follows a token in a text: nothing, or a space and the tokens after it. -/
def gapped (ts : List Token) : List Char :=
  if ts.isEmpty then [] else ' ' :: write ts

@[simp] theorem write_nil : write [] = [] := rfl

@[simp] theorem gapped_nil : gapped [] = [] := rfl

@[simp] theorem gapped_cons (t : Token) (ts : List Token) : gapped (t :: ts) = ' ' :: write (t :: ts) :=
  rfl

theorem write_cons (t : Token) (ts : List Token) : write (t :: ts) = t.spell ++ gapped ts := by
  cases ts with
  | nil => simp [write, List.intercalate]
  | cons u us => simp [write, List.intercalate]

/-! ### First characters -/

theorem not_isGap_of_isNameStart {c : Char} (h : isNameStart c = true) : isGap c = false := by
  simp only [isGap, Bool.or_eq_false_iff, decide_eq_false_iff_not]
  refine ⟨⟨⟨?_, ?_⟩, ?_⟩, ?_⟩ <;> rintro rfl <;> exact absurd h (by decide)

/-- A letter is no digit of any script. -/
theorem not_isDecimalDigit_of_isNameStart {c : Char} (h : isNameStart c = true) :
    isDecimalDigit c = false := by
  simp only [isNameStart, Bool.or_eq_true, Bool.and_eq_true, decide_eq_true_eq, Char.le_def,
    UInt32.le_iff_toNat_le] at h
  have hlow : c.toNat < 0x80 := by
    have : c.toNat = c.val.toNat := rfl
    rcases h with (⟨_, h⟩ | ⟨_, h⟩) | rfl
    · have : ('z' : Char).val.toNat = 122 := rfl
      omega
    · have : ('Z' : Char).val.toNat = 90 := rfl
      omega
    · decide
  have hdigit : ¬('0' ≤ c ∧ c ≤ '9') := by
    simp only [Char.le_def, UInt32.le_iff_toNat_le]
    have h0 : ('0' : Char).val.toNat = 48 := rfl
    have h9 : ('9' : Char).val.toNat = 57 := rfl
    rcases h with (⟨h, _⟩ | ⟨h, _⟩) | rfl
    · have : ('a' : Char).val.toNat = 97 := rfl
      omega
    · have : ('A' : Char).val.toNat = 65 := rfl
      omega
    · decide
  simp [isDecimalDigit, decimalDigit?, hlow, hdigit]

theorem not_isGap_of_isDecimalDigit {c : Char} (h : isDecimalDigit c = true) : isGap c = false := by
  simp only [isGap, Bool.or_eq_false_iff, decide_eq_false_iff_not]
  refine ⟨⟨⟨?_, ?_⟩, ?_⟩, ?_⟩ <;> rintro rfl <;> exact absurd h (by decide)

/-- The spelling of a keyword starts with a letter. -/
theorem isNameStart_head_keyword (k : Keyword) : k.text.toList.head?.any isNameStart = true := by
  cases k <;> decide

theorem isNameChar_keyword (k : Keyword) : ∀ c ∈ k.text.toList, isNameChar c = true :=
  List.all_eq_true.mp (by cases k <;> rfl)

/-- The first character of a sign is neither a blank, nor a quote, nor a letter, nor a digit. -/
theorem head_sign (s : Sign) :
    ∃ c cs, s.text.toList = c :: cs ∧ isGap c = false ∧ c ≠ '"' ∧ isNameStart c = false ∧
      isDecimalDigit c = false := by
  cases s with
  | binary op => cases op <;> exact ⟨_, _, rfl, by decide, by decide, by decide, by decide⟩
  | _ => exact ⟨_, _, rfl, by decide, by decide, by decide, by decide⟩

/-- A token has a first character, which is no blank, and it starts no comment, since a slash stands
alone. -/
theorem head_spell {t : Token} (h : t.valid = true) :
    ∃ c cs, t.spell = c :: cs ∧ isGap c = false ∧ (c = '/' → cs = []) := by
  cases t with
  | int digits =>
    cases digits with
    | nil => simp [Token.valid] at h
    | cons d ds =>
      simp only [Token.valid, List.isEmpty_cons, Bool.not_false, Bool.true_and, List.all_cons,
        Bool.and_eq_true] at h
      refine ⟨d, ds, rfl, not_isGap_of_isDecimalDigit h.1.1, ?_⟩
      rintro rfl
      exact absurd h.1.1 (by decide)
  | string raw => exact ⟨'"', raw ++ ['"'], rfl, by decide, fun h => absurd h (by decide)⟩
  | name text =>
    obtain ⟨c, cs, hcs, hhead⟩ := exists_cons_of_isName h
    refine ⟨c, cs, hcs, not_isGap_of_isNameStart hhead, ?_⟩
    rintro rfl
    exact absurd hhead (by decide)
  | keyword k => cases k <;> exact ⟨_, _, rfl, by decide, by decide⟩
  | sign s =>
    cases s with
    | binary op => cases op <;> exact ⟨_, _, rfl, by decide, by decide⟩
    | _ => exact ⟨_, _, rfl, by decide, by decide⟩

end Kestrel.Written
