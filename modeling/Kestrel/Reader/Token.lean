import Kestrel.Reader.Rule
import Kestrel.Syntax.Keyword
import Kestrel.Syntax.Operator
import Kestrel.Text.DecimalDigit
import Kestrel.Text.Numeral

/-!
# Tokens

The rules for the smallest parts of a program. Each first skips blanks and comments.

* `keyword`, `identifier` — words. A keyword counts as one only between characters that cannot belong
  to a word, a dollar sign among them; elsewhere the same letters are a name, or a part of one;
* `symbol`, `assignSign`, `unaryOp`, `binaryOp` — punctuation and operators;
* `integer` — decimal digits of any script;
* `string` — a text between double quotes, with its escapes resolved by `unescape`.
-/

namespace Kestrel.Reader

/-! ### Words -/

/-- May start a name. -/
def isNameStart (c : Char) : Bool :=
  ('a' ≤ c && c ≤ 'z') || ('A' ≤ c && c ≤ 'Z') || c = '_'

/-- May continue a name. -/
def isNameChar (c : Char) : Bool :=
  isNameStart c || ('0' ≤ c && c ≤ '9')

/-- Next to such a character a word is no keyword. -/
def isWordChar (c : Char) : Bool :=
  isNameChar c || c = '$'

/-- Does the keyword stand at this very position? -/
def keywordAt (k : Keyword) (c : Cursor) : Bool :=
  k.text.toList.isPrefixOf c.rest && !c.before.any isWordChar
    && !(c.rest.drop k.text.toList.length).head?.any isWordChar

/-- Does some keyword stand at this very position? -/
def anyKeywordAt (c : Cursor) : Bool :=
  Keyword.all.any (keywordAt · c)

/-- A keyword. -/
def keyword (k : Keyword) : Rule Unit := fun c =>
  if keywordAt k c.skip then .ok () (c.skip.advance k.text.toList.length) else .no

/-- A name. -/
def identifier : Rule String := fun c =>
  if c.skip.rest.head?.any isNameStart && !anyKeywordAt c.skip then
    let name := c.skip.rest.takeWhile isNameChar
    .ok (String.ofList name) (c.skip.advance name.length)
  else .no

/-! ### Punctuation and operators -/

/-- The given characters. -/
def symbol (s : String) : Rule Unit := fun c =>
  if s.toList.isPrefixOf c.skip.rest then .ok () (c.skip.advance s.toList.length) else .no

/-- The equals sign of an assignment, which is not the first half of `==`. -/
def assignSign : Rule Unit := fun c =>
  if "=".toList.isPrefixOf c.skip.rest && !"==".toList.isPrefixOf c.skip.rest then
    .ok () (c.skip.advance 1)
  else .no

/-- An operator in front of an operand. -/
def unaryOp : Rule UnaryOp := fun c =>
  match c.skip.rest with
  | '-' :: _ => .ok .neg (c.skip.advance 1)
  | '!' :: _ => .ok .not (c.skip.advance 1)
  | _ => .no

/-- The binary operators in an order in which no symbol stands before a longer one that it starts. -/
def operatorsBySymbol : List BinaryOp :=
  [.concat, .atLeast, .equal, .and, .or, .mul, .div, .add, .sub, .greater, .less]

/-- An operator between operands. -/
def binaryOp : Rule BinaryOp := fun c =>
  match operatorsBySymbol.find? (·.symbol.toList.isPrefixOf c.skip.rest) with
  | some op => .ok op (c.skip.advance op.symbol.toList.length)
  | none => .no

/-! ### Literals -/

/-- An integer: a row of decimal digits. Too many of them stop the reading. -/
def integer : Rule Nat := fun c =>
  match (c.skip.rest.takeWhile Text.isDecimalDigit).filterMap Text.decimalDigit? with
  | [] => .no
  | ds =>
    match Text.ofDigits? ds with
    | some n => .ok n (c.skip.advance ds.length)
    | none => .halt .tooManyDigits

/-- The characters between an opening quote, which has been read, and the closing one, with escapes as
they are written. A line feed ends no text, and a carriage return only does so in an escape. -/
def quoted? : List Char → Option (List Char)
  | [] => none
  | '\\' :: c :: cs => if c = '\n' then none else (quoted? cs).map fun s => '\\' :: c :: s
  | c :: cs =>
    if c = '"' then some []
    else if c = '\\' ∨ c = '\n' ∨ c = '\r' then none
    else (quoted? cs).map (c :: ·)

/-- The value of a hexadecimal digit. -/
def hexDigit? (c : Char) : Option Nat :=
  if '0' ≤ c && c ≤ '9' then some (c.toNat - '0'.toNat)
  else if 'a' ≤ c && c ≤ 'f' then some (c.toNat - 'a'.toNat + 10)
  else if 'A' ≤ c && c ≤ 'F' then some (c.toNat - 'A'.toNat + 10)
  else none

/-- The character of the number `16 * d + low`, where `d` is the digit that starts the given characters
and is followed by `low`. -/
def numbered? (low : Char) : List Char → Option Char
  | d :: e :: _ =>
    if e = low then
      match hexDigit? d, hexDigit? low with
      | some high, some rest => some (Char.ofNat (16 * high + rest))
      | _, _ => none
    else none
  | _ => none

/-- The character that an escape stands for, and how many characters it takes after its backslash.

Four letters stand for control characters, and `0` for the null character, except before a `3`. An `x`
takes a hexadecimal digit and a `2` after it and stands for the character of that number; a `u` takes a
hexadecimal digit and a `4`. Any other character stands for itself, and so do `0`, `x` and `u` where
what they need does not follow. -/
def escape : List Char → Char × Nat
  | [] => ('\\', 0)
  | c :: cs =>
    if c = 't' then ('\t', 1)
    else if c = 'n' then ('\n', 1)
    else if c = 'f' then ('\x0c', 1)
    else if c = 'r' then ('\r', 1)
    else if c = '0' && cs.head? != some '3' then ('\x00', 1)
    else if c = 'x' then
      match numbered? '2' cs with
      | some e => (e, 3)
      | none => (c, 1)
    else if c = 'u' then
      match numbered? '4' cs with
      | some e => (e, 3)
      | none => (c, 1)
    else (c, 1)

/-- A text with its escapes resolved. The first `skip` characters belong to an escape already
resolved. -/
def unescapeFrom : (skip : Nat) → List Char → List Char
  | _, [] => []
  | skip + 1, _ :: cs => unescapeFrom skip cs
  | 0, c :: cs =>
    if c = '\\' then (escape cs).1 :: unescapeFrom (escape cs).2 cs else c :: unescapeFrom 0 cs

/-- A text between double quotes. -/
def string : Rule (List Char) := fun c =>
  match c.skip.rest with
  | '"' :: cs =>
    match quoted? cs with
    | some raw => .ok (unescapeFrom 0 raw) (c.skip.advance (raw.length + 2))
    | none => .no
  | _ => .no

end Kestrel.Reader
