import Kestrel.Text.Printable

/-!
# Quoted text

How a text is shown between quotes, so that the shown form is one line of printable characters and
tells where the text ends. Single quotes are used, unless the text holds a single quote and no double
one. The backslash and the quote in use get a backslash in front; line feed, carriage return and tab
have escapes of one letter; every other character that cannot be printed is written as its code point
in two, four or eight hexadecimal digits.

* `quoteMark` — which quote is used;
* `escapeChar`, `quoteChars`, `quote` — a character, a character list and a string in quoted form;
* `quoteBytes` — the same for bytes, where only printable ASCII stands for itself.
-/

namespace Kestrel.Text

/-- The quote around a text: single, unless that one occurs in the text and the double one does not. -/
def quoteMark (cs : List Char) : Char :=
  if cs.contains '\'' && !cs.contains '"' then '"' else '\''

/-- The last `width` hexadecimal digits of `n`, in lower case, padded with zeros. -/
def hexDigits : (width n : Nat) → List Char
  | 0, _ => []
  | width + 1, n => hexDigits width (n / 16) ++ [Nat.digitChar (n % 16)]

theorem length_hexDigits (width n : Nat) : (hexDigits width n).length = width := by
  induction width generalizing n with
  | zero => rfl
  | succ width ih => simp [hexDigits, ih]

/-- The escape of a code point, by its size: two, four or eight hexadecimal digits. -/
def codePointEscape (n : Nat) : List Char :=
  if n < 0x100 then '\\' :: 'x' :: hexDigits 2 n
  else if n < 0x10000 then '\\' :: 'u' :: hexDigits 4 n
  else '\\' :: 'U' :: hexDigits 8 n

/-- One character inside quotes of the given kind. -/
def escapeChar (mark c : Char) : List Char :=
  if c = mark ∨ c = '\\' then ['\\', c]
  else if c = '\n' then ['\\', 'n']
  else if c = '\r' then ['\\', 'r']
  else if c = '\t' then ['\\', 't']
  else if isPrintable c then [c]
  else codePointEscape c.toNat

/-- A character list in quoted form. -/
def quoteChars (cs : List Char) : List Char :=
  let mark := quoteMark cs
  mark :: cs.flatMap (escapeChar mark) ++ [mark]

/-- A string in quoted form. -/
def quote (s : String) : String :=
  String.ofList (quoteChars s.toList)

/-- One byte inside quotes of the given kind: printable ASCII stands for itself. -/
def escapeByte (mark : Char) (b : UInt8) : List Char :=
  let c := Char.ofNat b.toNat
  if c = mark ∨ c = '\\' then ['\\', c]
  else if c = '\n' then ['\\', 'n']
  else if c = '\r' then ['\\', 'r']
  else if c = '\t' then ['\\', 't']
  else if 0x20 ≤ b.toNat ∧ b.toNat < 0x7F then [c]
  else '\\' :: 'x' :: hexDigits 2 b.toNat

/-- Bytes in quoted form, marked by a `b` in front. -/
def quoteBytes (bs : List UInt8) : String :=
  let mark := quoteMark (bs.map fun b => Char.ofNat b.toNat)
  String.ofList ('b' :: mark :: bs.flatMap (escapeByte mark) ++ [mark])

/-- The quote follows the text, and only what cannot be printed is escaped by number. -/
example : quoteChars "it's\n".toList = "\"it's\\n\"".toList ∧
    quoteChars "'\"".toList = "'\\'\"'".toList ∧
    quoteChars ['\x00', '\u00ad', '\u200b'] = "'\\x00\\xad\\u200b'".toList := by
  decide +kernel

end Kestrel.Text
