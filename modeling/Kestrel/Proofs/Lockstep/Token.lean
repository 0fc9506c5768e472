import Kestrel.Proofs.Lockstep.Expression
import Kestrel.Proofs.Lockstep.Lexical

/-!
# Tokens in step

The rules for tokens look at a text in a few ways only: whether a word stands there, how far a row of
characters of one kind goes, and what touches a keyword. If two texts look the same in these ways, their
tokens are the same.

* `isPlain` — characters of which tokens are made that stand in no other part of a text;
* `SameLook` — two texts look the same at positions that belong together, and behind each token;
* `SameLook.expressionTokens` — then the tokens of expressions are read in step.
-/

namespace Kestrel.Reader

open Text

/-- A character that is no blank, opens no text between quotes, begins no comment, and does not end a
statement. -/
def isPlain (c : Char) : Bool :=
  !isGap c && c ≠ ';' && c ≠ '}' && c ≠ '"' && c ≠ '/'

/-- Characters of a kind are plain if those that are not plain are of another kind. -/
theorem isPlain_of {p : Char → Bool}
    (hp : [' ', '\t', '\n', '\r', ';', '}', '"', '/'].all (!p ·)) {c : Char} (h : p c = true) :
    isPlain c := by
  have hne : ∀ x ∈ [' ', '\t', '\n', '\r', ';', '}', '"', '/'], c ≠ x := by
    rintro x hx rfl
    have hnot := List.all_eq_true.mp hp c hx
    rw [h] at hnot
    cases hnot
  simp only [List.mem_cons, List.not_mem_nil, or_false, forall_eq_or_imp, forall_eq] at hne
  simp [isPlain, isGap, hne]

theorem isPlain_keyword (k : Keyword) : k.text.toList.all isPlain := by
  cases k <;> rfl

theorem isPlain_of_isNameChar {c : Char} (h : isNameChar c = true) : isPlain c :=
  isPlain_of (by decide) h

theorem isPlain_of_isNameStart {c : Char} (h : isNameStart c = true) : isPlain c :=
  isPlain_of (by decide) h

theorem isPlain_of_isDecimalDigit {c : Char} (h : isDecimalDigit c = true) : isPlain c :=
  isPlain_of (by decide +kernel) h

/-- The texts look the same to the rules for tokens at positions that belong together, and positions
behind the same token belong together. -/
structure SameLook (R : Cursor → Cursor → Prop) : Prop where
  /-- the same words stand there -/
  isPrefixOf {c d : Cursor} (h : R c d) {w : List Char} (hw : w.all isPlain) :
    w.isPrefixOf d.skip.rest = w.isPrefixOf c.skip.rest
  /-- behind a word -/
  advance_word {c d : Cursor} (h : R c d) {w : List Char} (hw : w.all isPlain) (hne : w ≠ [])
    (hstarts : w.isPrefixOf c.skip.rest) : R (c.skip.advance w.length) (d.skip.advance w.length)
  /-- the same rows of characters of one kind stand there -/
  takeWhile {c d : Cursor} (h : R c d) {p : Char → Bool} (hp : ∀ x, p x = true → isPlain x) :
    d.skip.rest.takeWhile p = c.skip.rest.takeWhile p
  /-- behind a row -/
  advance_row {c d : Cursor} (h : R c d) {p : Char → Bool} (hp : ∀ x, p x = true → isPlain x)
    (hne : c.skip.rest.takeWhile p ≠ []) :
    R (c.skip.advance (c.skip.rest.takeWhile p).length)
      (d.skip.advance (c.skip.rest.takeWhile p).length)
  /-- the same keywords stand there, cut off from what touches them or not -/
  keywordAt {c d : Cursor} (h : R c d) (k : Keyword) : keywordAt k d.skip = keywordAt k c.skip
  /-- a slash stands at both positions or at none -/
  slash {c d : Cursor} (h : R c d) :
    "/".toList.isPrefixOf d.skip.rest = "/".toList.isPrefixOf c.skip.rest
  /-- behind a slash -/
  advance_slash {c d : Cursor} (h : R c d) (hstarts : "/".toList.isPrefixOf c.skip.rest) :
    R (c.skip.advance 1) (d.skip.advance 1)
  /-- the same texts between quotes stand there -/
  string {c d : Cursor} (h : R c d) : Matches R (string c) (string d)

theorem head?_any_eq {p : Char → Bool} (cs : List Char) :
    cs.head?.any p = !(cs.takeWhile p).isEmpty := by
  cases cs with
  | nil => rfl
  | cons c cs =>
    rw [List.takeWhile_cons]
    cases hc : p c <;> simp [hc]

namespace SameLook

variable {R : Cursor → Cursor → Prop} (hlook : SameLook R) {c d : Cursor} (h : R c d)
include hlook h

/-! ### Words -/

theorem matches_keyword (k : Keyword) : Matches R (keyword k c) (keyword k d) := by
  rw [keyword, keyword, hlook.keywordAt h]
  split
  next hk =>
    rw [Reader.keywordAt, Bool.and_eq_true, Bool.and_eq_true] at hk
    exact .ok () (hlook.advance_word h (isPlain_keyword k) (by cases k <;> decide) hk.1.1)
  next => exact .no

theorem matches_identifier : Matches R (identifier c) (identifier d) := by
  have hkeyword : anyKeywordAt d.skip = anyKeywordAt c.skip := by
    rw [anyKeywordAt, anyKeywordAt]
    exact congrArg _ (funext (hlook.keywordAt h))
  have hstart : d.skip.rest.head?.any isNameStart = c.skip.rest.head?.any isNameStart := by
    rw [head?_any_eq, head?_any_eq, hlook.takeWhile h fun _ => isPlain_of_isNameStart]
  have hname : d.skip.rest.takeWhile isNameChar = c.skip.rest.takeWhile isNameChar :=
    hlook.takeWhile h fun _ => isPlain_of_isNameChar
  rw [identifier, identifier, hkeyword, hstart, hname]
  split
  next hfirst =>
    rw [Bool.and_eq_true] at hfirst
    exact .ok _ (hlook.advance_row h (fun _ => isPlain_of_isNameChar)
      (takeWhile_isNameChar_ne_nil hfirst.1))
  next => exact .no

/-! ### Punctuation and operators -/

theorem matches_symbol {s : String} (hs : s.toList.all isPlain) (hne : s.toList ≠ []) :
    Matches R (symbol s c) (symbol s d) := by
  rw [symbol, symbol, hlook.isPrefixOf h hs]
  split
  next hstarts => exact .ok () (hlook.advance_word h hs hne hstarts)
  next => exact .no

theorem matches_assignSign : Matches R (assignSign c) (assignSign d) := by
  rw [assignSign, assignSign, hlook.isPrefixOf h (by decide), hlook.isPrefixOf h (by decide)]
  split
  next hstarts =>
    rw [Bool.and_eq_true] at hstarts
    exact .ok () (hlook.advance_word h (by decide) (by decide) hstarts.1)
  next => exact .no

theorem matches_unaryOp : Matches R (unaryOp c) (unaryOp d) := by
  rw [unaryOp_eq, unaryOp_eq, hlook.isPrefixOf h (by decide), hlook.isPrefixOf h (by decide)]
  split
  next hneg => exact .ok UnaryOp.neg (hlook.advance_word h (by decide) (by decide) hneg)
  next =>
    split
    next hnot => exact .ok UnaryOp.not (hlook.advance_word h (by decide) (by decide) hnot)
    next => exact .no

theorem matches_binaryOp : Matches R (binaryOp c) (binaryOp d) := by
  have hfind : operatorsBySymbol.find? (·.symbol.toList.isPrefixOf d.skip.rest) =
      operatorsBySymbol.find? (·.symbol.toList.isPrefixOf c.skip.rest) := by
    refine congrArg (operatorsBySymbol.find? ·) (funext fun op => ?_)
    cases op with
    | div => exact hlook.slash h
    | _ => exact hlook.isPrefixOf h (by decide)
  rw [binaryOp, binaryOp, hfind]
  split
  next op hop =>
    have hstarts := List.find?_some hop
    cases op with
    | div => exact .ok _ (hlook.advance_slash h hstarts)
    | _ => exact .ok _ (hlook.advance_word h (by decide) (by decide) hstarts)
  next => exact .no

/-! ### Literals -/

theorem matches_integer : Matches R (integer c) (integer d) := by
  have hplain : ∀ x, isDecimalDigit x = true → isPlain x := fun _ => isPlain_of_isDecimalDigit
  have hlength : ((c.skip.rest.takeWhile isDecimalDigit).filterMap decimalDigit?).length =
      (c.skip.rest.takeWhile isDecimalDigit).length :=
    Written.length_filterMap_decimalDigit List.all_takeWhile
  rw [integer, integer, hlook.takeWhile h hplain]
  split
  next => exact .no
  next ds hne =>
    rw [hlength]
    split
    next n _ =>
      refine .ok n (hlook.advance_row h hplain fun hnil => ?_)
      rw [hnil] at hne
      exact hne rfl
    next => exact .halt _

omit h in
/-- Expressions are made of tokens that are the same. -/
theorem expressionTokens : ExpressionTokens R where
  keyword k _ _ h := hlook.matches_keyword h k
  identifier h := hlook.matches_identifier h
  sign hs _ _ h := by
    simp only [expressionSigns, List.mem_cons, List.not_mem_nil, or_false] at hs
    rcases hs with rfl | rfl | rfl | rfl | rfl <;>
      exact hlook.matches_symbol h (by decide) (by decide)
  unaryOp h := hlook.matches_unaryOp h
  binaryOp h := hlook.matches_binaryOp h
  integer h := hlook.matches_integer h
  string h := hlook.string h

end SameLook

end Kestrel.Reader
