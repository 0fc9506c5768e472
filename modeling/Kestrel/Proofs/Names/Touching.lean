import Kestrel.Proofs.Contract.Expression
import Kestrel.Proofs.Lockstep.Lexical

/-!
# Words that touch each other

Tokens may follow each other without a blank. A keyword counts as one only where no word touches it, so a
keyword may be taken for a name where something does. In front of it only a digit can stand, which ends an
integer: other tokens that end with a character of a word take all such characters. Behind it only a dollar
sign can stand, which is part of no token, so that the text cannot be read to its end.

* `Clear` — a position at which no character of a word stands in front of a name;
* `Placed` — a position in a text at which, if it is not clear, an ASCII digit stands in front of the name;
* `Stuck` — a position in front of a dollar sign;
* `touching` — what is known where the reading is not stuck;
* `tokensEnsure_clear`, `tokensEnsure_anywhere` — names at clear positions are no keywords, and at others
  keywords that stand behind a digit.
-/

namespace Kestrel

/-- The word is a keyword. -/
def IsKeyword (x : String) : Prop := ∃ k : Keyword, x = k.text

/-- Somewhere in the text the word stands right behind an ASCII digit. -/
def BehindDigit (text : List Char) (x : String) : Prop :=
  ∃ d : Char, d.isDigit = true ∧ d :: x.toList <:+: text

namespace Reader

open Text

variable {α : Type} {text cs : List Char} {c c' : Cursor}

/-- No character of a word stands right in front of a name that starts at the position. -/
def Clear (c : Cursor) : Prop :=
  c.before.any isWordChar = true → c.rest.head?.any isNameStart = false

/-- The position is one in the text, and clear unless an ASCII digit stands in front of it. -/
structure Placed (text : List Char) (c : Cursor) : Prop where
  /-- what is in front -/
  split : ∃ front, text = front ++ c.rest ∧ c.before = front.getLast?
  /-- what touches a name -/
  touch : Clear c ∨ c.before.any Char.isDigit = true

/-- A dollar sign is next, so no token can be read. -/
def Stuck (c : Cursor) : Prop := c.rest.head? = some '$'

/-- At a position of the text a fact is known if it holds unless the reading is stuck. -/
def touching (text : List Char) : Evidence where
  Known c A := Stuck c ∨ Placed text c ∧ A
  imp hAB := Or.imp_right fun h => ⟨h.1, hAB h.2⟩

/-! ### Layout -/

theorem skipFrom_split (layout : Layout) (before : Option Char) (cs : List Char) :
    ∃ front, cs = front ++ (skipFrom layout before cs).rest ∧
      (skipFrom layout before cs).before = front.getLast?.or before := by
  fun_induction skipFrom layout before cs with
  | case1 | case4 => exact ⟨[], rfl, rfl⟩
  | case2 before c cs _ ih | case3 before c cs _ _ ih | case5 before cs ih | case6 before c cs _ ih
  | case7 before cs ih | case8 before c cs _ ih =>
    obtain ⟨front, hrest, hbefore⟩ := ih
    refine ⟨_ :: front, congrArg _ hrest, hbefore.trans ?_⟩
    cases front with
    | nil => rfl
    | cons d front =>
      rw [List.getLast?_cons_cons, List.getLast?_eq_some_getLast (List.cons_ne_nil d front)]
      rfl

/-- Behind layout no word is cut off. -/
theorem skip_eq_or_clear (c : Cursor) : c.skip = c ∨ Clear c.skip := by
  cases hopens : opensLayout c.rest with
  | false => exact .inl (skipFrom_of_opensLayout_eq_false hopens c.before)
  | true =>
    refine .inr fun hword => ?_
    obtain hnil | hbefore := skipFrom_before_isWordChar .gap c.before c.rest (.inr (.inl hopens))
    · rw [Cursor.skip, hnil]
      rfl
    · rw [Cursor.skip, hbefore] at hword
      cases hword

theorem Placed.skip (h : Placed text c) : Placed text c.skip := by
  refine ⟨?_, ?_⟩
  · obtain ⟨front, htext, hfront⟩ := h.split
    obtain ⟨layout, hrest, hbefore⟩ := skipFrom_split .gap c.before c.rest
    refine ⟨front ++ layout, ?_, ?_⟩
    · rw [List.append_assoc, Cursor.skip, ← hrest, htext]
    · rw [List.getLast?_append, ← hfront, Cursor.skip, hbefore]
  · obtain heq | hclear := skip_eq_or_clear c
    · rw [heq]
      exact h.touch
    · exact .inl hclear

theorem Stuck.skip (h : Stuck c) : c.skip = c := by
  refine skipFrom_of_opensLayout_eq_false ?_ c.before
  obtain ⟨before, rest⟩ := c
  obtain ⟨rest, rfl⟩ : ∃ cs, rest = '$' :: cs := List.head?_eq_some_iff.mp h
  exact opensLayout_cons.mpr ⟨rfl, startsComment_of_ne (by decide)⟩

/-- Behind characters that have been read. -/
theorem Placed.advance (h : Placed text c) {n : Nat}
    (htouch : Clear (c.skip.advance n) ∨ (c.skip.advance n).before.any Char.isDigit = true) :
    Placed text (c.skip.advance n) := by
  refine ⟨?_, htouch⟩
  obtain ⟨front, htext, hfront⟩ := h.skip.split
  refine ⟨front ++ c.skip.rest.take n, ?_, ?_⟩
  · rw [Cursor.advance, List.append_assoc, List.take_append_drop, htext]
  · rw [List.getLast?_append, ← hfront, Cursor.advance]

/-! ### Tokens -/

/-- From the first position a token was read up to the second one. -/
structure Passed (c c' : Cursor) : Prop where
  /-- it starts behind the layout -/
  advance : ∃ n, c' = c.skip.advance n
  /-- no token starts with a dollar sign -/
  start : c.skip.rest.head? ≠ some '$'

/-- What a token ensures, if it ensures that nothing but a digit touches the next name. -/
theorem ensures_of_passed {p : Rule α} {pre post : Cursor → Prop} {P : α → Prop}
    (h : ∀ {c a c'}, p c = .ok a c' → Passed c c' ∧ (Placed text c → pre c →
      Stuck c' ∨ (Clear c' ∨ c'.before.any Char.isDigit = true) ∧ P a ∧ post c')) :
    Rule.Ensures (touching text) pre p P post := by
  intro c a c' A ha hc
  obtain ⟨⟨⟨n, rfl⟩, hstart⟩, hgives⟩ := h ha
  obtain hstuck | ⟨hplaced, hA, hpre⟩ := hc
  · rw [hstuck.skip] at hstart
    exact absurd hstuck hstart
  · exact (hgives hplaced hpre).imp_right fun ⟨htouch, hP, hpost⟩ =>
      ⟨hplaced.advance htouch, hA, hP, hpost⟩

/-- What a token ensures that leaves a clear position. -/
theorem ensures_of_clear {p : Rule α}
    (h : ∀ {c a c'}, p c = .ok a c' → Passed c c' ∧ Clear c') :
    Rule.Ensures (touching text) anywhere p (fun _ => True) Clear :=
  ensures_of_passed fun ha => ⟨(h ha).1, fun _ _ => .inr ⟨.inl (h ha).2, True.intro, (h ha).2⟩⟩

/-- What it takes to read a token under a condition. -/
theorem Parsed.ite_eq_ok {p : Prop} [Decidable p] {a b : α} :
    (if p then Parsed.ok a c else .no) = .ok b c' ↔ p ∧ a = b ∧ c = c' := by
  by_cases hp : p <;> simp [hp]

section Words

variable {w : List Char}

/-- Behind a word. -/
theorem passed_word (hne : w ≠ []) (hw : w.head? ≠ some '$') (h : w.isPrefixOf c.skip.rest = true) :
    Passed c (c.skip.advance w.length) :=
  ⟨⟨_, rfl⟩, by rwa [head?_of_isPrefixOf hne h]⟩

theorem before_advance (hne : w ≠ []) (h : w.isPrefixOf cs = true) (before : Option Char) :
    ((Cursor.mk before cs).advance w.length).before = w.getLast? := by
  obtain ⟨rest, rfl⟩ := List.isPrefixOf_iff_prefix.mp h
  rw [Cursor.advance, List.take_left, List.getLast?_eq_some_getLast hne]
  rfl

/-- A character that is part of no word leaves a clear position. -/
theorem clear_of_last (hne : w ≠ []) (hlast : w.getLast?.any isWordChar = false)
    (h : w.isPrefixOf c.skip.rest = true) : Clear (c.skip.advance w.length) := by
  intro hword
  rw [before_advance hne h, hlast] at hword
  cases hword

/-- Signs are made of characters that are part of no word. -/
theorem passed_sign (hne : w ≠ []) (hw : w.all (!isWordChar ·) = true)
    (h : w.isPrefixOf c.skip.rest = true) :
    Passed c (c.skip.advance w.length) ∧ Clear (c.skip.advance w.length) := by
  have hnot : ∀ x ∈ w, isWordChar x = false := by simpa using hw
  refine ⟨passed_word hne ?_ h, clear_of_last hne ?_ h⟩
  · intro hdollar
    exact absurd (hnot '$' (List.mem_of_head? hdollar)) (by decide)
  · rw [List.getLast?_eq_some_getLast hne]
    exact hnot _ (List.getLast_mem hne)

end Words

theorem ensures_symbol {s : String} (hne : s.toList ≠ []) (hs : s.toList.all (!isWordChar ·) = true) :
    Rule.Ensures (touching text) anywhere (symbol s) (fun _ => True) Clear := by
  refine ensures_of_clear fun {c a c'} ha => ?_
  rw [symbol, Parsed.ite_eq_ok] at ha
  obtain ⟨h, -, rfl⟩ := ha
  exact passed_sign hne hs h

theorem ensures_assignSign :
    Rule.Ensures (touching text) anywhere assignSign (fun _ => True) Clear := by
  refine ensures_of_clear fun {c a c'} ha => ?_
  rw [assignSign, Parsed.ite_eq_ok, Bool.and_eq_true] at ha
  obtain ⟨⟨h, -⟩, -, rfl⟩ := ha
  exact passed_sign (w := "=".toList) (by decide) (by decide) h

theorem ensures_unaryOp :
    Rule.Ensures (touching text) anywhere unaryOp (fun _ => True) Clear := by
  refine ensures_of_clear fun {c a c'} ha => ?_
  rw [unaryOp_eq] at ha
  split at ha
  next h =>
    cases ha
    exact passed_sign (w := "-".toList) (by decide) (by decide) h
  next =>
    split at ha
    next h =>
      cases ha
      exact passed_sign (w := "!".toList) (by decide) (by decide) h
    next => cases ha

theorem ensures_binaryOp :
    Rule.Ensures (touching text) anywhere binaryOp (fun _ => True) Clear := by
  refine ensures_of_clear fun {c a c'} ha => ?_
  rw [binaryOp] at ha
  split at ha
  next op hop =>
    cases ha
    have hstarts := List.find?_some hop
    exact passed_sign (by cases a <;> decide) (by cases a <;> decide) hstarts
  next => cases ha

theorem any_isNameStart_eq_false {o : Option Char} (h : o.any isWordChar = false) :
    o.any isNameStart = false := by
  cases o with
  | none => rfl
  | some x =>
    simp only [Option.any_some, isWordChar, isNameChar, Bool.or_eq_false_iff] at h
    exact h.1.1

theorem ensures_keyword (k : Keyword) :
    Rule.Ensures (touching text) anywhere (keyword k) (fun _ => True) Clear := by
  refine ensures_of_clear fun {c a c'} ha => ?_
  rw [keyword, Parsed.ite_eq_ok, keywordAt, Bool.and_eq_true, Bool.and_eq_true, Bool.not_eq_true',
    Bool.not_eq_true'] at ha
  obtain ⟨⟨⟨hword, -⟩, hbehind⟩, -, rfl⟩ := ha
  refine ⟨passed_word (by cases k <;> decide) (by cases k <;> decide) hword, fun _ => ?_⟩
  exact any_isNameStart_eq_false hbehind

/-! ### Literals -/

theorem ensures_string :
    Rule.Ensures (touching text) anywhere string (fun _ => True) Clear := by
  refine ensures_of_clear fun {c a c'} ha => ?_
  by_cases hquote : c.skip.rest.head? = some '"'
  · obtain ⟨cs, hcs⟩ := List.head?_eq_some_iff.mp hquote
    rw [string_eq hcs] at ha
    split at ha
    next raw hraw =>
      cases ha
      have hstarts : ('"' :: (raw ++ ['"'])).isPrefixOf c.skip.rest = true := by
        rw [List.isPrefixOf_iff_prefix, hcs, ← take_of_quoted? hraw, List.cons_prefix_cons]
        exact ⟨rfl, List.take_prefix _ _⟩
      have hlength : raw.length + 2 = ('"' :: (raw ++ ['"'])).length := by simp
      have hne : '"' :: (raw ++ ['"']) ≠ [] := List.cons_ne_nil _ _
      rw [hlength]
      refine ⟨passed_word hne nofun hstarts, clear_of_last hne ?_ hstarts⟩
      rw [← List.cons_append, List.getLast?_concat]
      rfl
    next => cases ha
  · rw [string_eq_no hquote] at ha
    cases ha

theorem toNat_lt_of_isWordChar {x : Char} (h : isWordChar x = true) : x.toNat < 0x80 := by
  simp only [isWordChar, isNameChar, isNameStart, Bool.or_eq_true, Bool.and_eq_true, decide_eq_true_eq,
    Char.le_def, UInt32.le_iff_toNat_le] at h
  have hz : 'z'.val.toNat = 122 := rfl
  have hZ : 'Z'.val.toNat = 90 := rfl
  have h9 : '9'.val.toNat = 57 := rfl
  have hx : x.toNat = x.val.toNat := rfl
  rcases h with (((h | h) | rfl) | h) | rfl
  · omega
  · omega
  · decide
  · omega
  · decide

/-- Of the decimal digits only the ASCII digits are characters of words. -/
theorem isDigit_of_isWordChar {x : Char} (h : isWordChar x = true) (hdigit : isDecimalDigit x = true) :
    x.isDigit = true := by
  rw [isDecimalDigit, decimalDigit?, if_pos (toNat_lt_of_isWordChar h)] at hdigit
  split at hdigit
  next h =>
    rw [Bool.and_eq_true, decide_eq_true_eq, decide_eq_true_eq] at h
    simp only [Char.isDigit, Bool.and_eq_true, decide_eq_true_eq]
    exact h
  next => cases hdigit

theorem ensures_integer :
    Rule.Ensures (touching text) anywhere integer (fun _ => True) anywhere := by
  refine ensures_of_passed fun {c a c'} ha => ?_
  have hstarts : (c.skip.rest.takeWhile isDecimalDigit).isPrefixOf c.skip.rest = true :=
    List.isPrefixOf_iff_prefix.mpr (List.takeWhile_prefix _)
  have hdigits : (c.skip.rest.takeWhile isDecimalDigit).all isDecimalDigit = true :=
    List.all_takeWhile
  have hlength := Written.length_filterMap_decimalDigit hdigits
  rw [integer] at ha
  generalize c.skip.rest.takeWhile isDecimalDigit = w at ha hstarts hdigits hlength
  split at ha
  next => cases ha
  next ds hne =>
    split at ha
    next n _ =>
      cases ha
      rw [hlength]
      have hw : w ≠ [] := by
        rintro rfl
        exact hne rfl
      have hdigit (x : Char) (hx : x ∈ w) : isDecimalDigit x = true := List.all_eq_true.mp hdigits x hx
      refine ⟨passed_word hw ?_ hstarts, fun _ _ => .inr ⟨?_, True.intro, True.intro⟩⟩
      · intro hdollar
        exact absurd (hdigit '$' (List.mem_of_head? hdollar)) (by decide)
      · cases hword : isWordChar (w.getLast hw) with
        | false =>
          refine .inl (clear_of_last hw ?_ hstarts)
          rw [List.getLast?_eq_some_getLast hw, Option.any_some, hword]
        | true =>
          refine .inr ?_
          rw [before_advance hw hstarts, List.getLast?_eq_some_getLast hw]
          exact isDigit_of_isWordChar hword (hdigit _ (List.getLast_mem hw))
    next => cases ha

/-! ### Names -/

theorem head?_drop_takeWhile (p : Char → Bool) (cs : List Char) :
    (cs.drop (cs.takeWhile p).length).head?.any p = false := by
  induction cs with
  | nil => rfl
  | cons c cs ih =>
    cases hc : p c with
    | false =>
      rw [List.takeWhile_cons, hc]
      exact hc
    | true => rwa [List.takeWhile_cons, if_pos hc]

/-- What it takes to read a name. -/
theorem identifier_eq_ok {name : String} (h : identifier c = .ok name c') :
    c.skip.rest.head?.any isNameStart = true ∧ anyKeywordAt c.skip = false ∧
      name = String.ofList (c.skip.rest.takeWhile isNameChar) ∧
      c' = c.skip.advance (c.skip.rest.takeWhile isNameChar).length := by
  rw [identifier, Parsed.ite_eq_ok, Bool.and_eq_true, Bool.not_eq_true'] at h
  obtain ⟨⟨hstart, hnone⟩, rfl, rfl⟩ := h
  exact ⟨hstart, hnone, rfl, rfl⟩

theorem passed_identifier {name : String} (h : identifier c = .ok name c') : Passed c c' := by
  obtain ⟨hstart, -, -, rfl⟩ := identifier_eq_ok h
  refine ⟨⟨_, rfl⟩, fun hdollar => ?_⟩
  rw [hdollar] at hstart
  cases hstart

/-- A keyword is taken for a name where it touches a word in front of it, unless it touches one behind. -/
theorem not_clear_of_keyword (hstart : c.skip.rest.head?.any isNameStart = true)
    (hnone : anyKeywordAt c.skip = false) {k : Keyword}
    (hk : c.skip.rest.takeWhile isNameChar = k.text.toList)
    (hbehind : (c.skip.advance (c.skip.rest.takeWhile isNameChar).length).rest.head?.any isWordChar =
      false) : c.skip = c ∧ ¬Clear c := by
  have hkeyword : keywordAt k c.skip = false := by
    rw [anyKeywordAt, List.any_eq_false] at hnone
    exact Bool.eq_false_iff.mpr (hnone k k.mem_all)
  have hstarts : k.text.toList.isPrefixOf c.skip.rest = true := by
    rw [← hk]
    exact List.isPrefixOf_iff_prefix.mpr (List.takeWhile_prefix _)
  rw [hk] at hbehind
  have hbefore : c.skip.before.any isWordChar = true := by
    change (c.skip.rest.drop k.text.toList.length).head?.any isWordChar = false at hbehind
    rw [keywordAt, hstarts, hbehind] at hkeyword
    simpa using hkeyword
  have hskip : ¬Clear c.skip := fun hclear => by
    rw [hclear hbefore] at hstart
    cases hstart
  have heq : c.skip = c := (skip_eq_or_clear c).resolve_right hskip
  exact ⟨heq, heq ▸ hskip⟩

/-- At a clear position a name is no keyword. At any other it may be one that stands behind a digit. -/
theorem identifier_cases {name : String} (h : identifier c = .ok name c') (hplaced : Placed text c) :
    Stuck c' ∨ Clear c' ∧ (IsKeyword name → ¬Clear c ∧ BehindDigit text name) := by
  obtain ⟨hstart, hnone, rfl, hc'⟩ := identifier_eq_ok h
  have hmaximal : c'.rest.head?.any isNameChar = false := by
    rw [hc']
    exact head?_drop_takeWhile isNameChar c.skip.rest
  cases hbehind : c'.rest.head?.any isWordChar with
  | true =>
    left
    rw [Option.any_eq_true] at hbehind
    obtain ⟨x, hx, hword⟩ := hbehind
    rw [hx, Option.any_some] at hmaximal
    rw [isWordChar, hmaximal, Bool.false_or, decide_eq_true_eq] at hword
    rw [Stuck, hx, hword]
  | false =>
    refine .inr ⟨fun _ => any_isNameStart_eq_false hbehind, ?_⟩
    rintro ⟨k, hk⟩
    have hword : c.skip.rest.takeWhile isNameChar = k.text.toList := by
      rw [← hk, String.toList_ofList]
    rw [hc'] at hbehind
    obtain ⟨hskip, hclear⟩ := not_clear_of_keyword hstart hnone hword hbehind
    refine ⟨hclear, ?_⟩
    -- the digit in front of the position, and then the word
    have htouch := hplaced.touch.resolve_left hclear
    obtain ⟨front, htext, hfront⟩ := hplaced.split
    rw [hfront, Option.any_eq_true] at htouch
    obtain ⟨d, hlast, hdigit⟩ := htouch
    obtain ⟨front, rfl⟩ := List.getLast?_eq_some_iff.mp hlast
    refine ⟨d, hdigit, ?_⟩
    rw [hskip, String.toList_ofList, htext, List.append_assoc, List.singleton_append]
    have hstarts : d :: c.rest.takeWhile isNameChar <+: d :: c.rest :=
      (List.prefix_cons_inj d).mpr (List.takeWhile_prefix _)
    exact hstarts.isInfix.trans (List.suffix_append _ _).isInfix

/-- At a clear position names are no keywords. -/
theorem ensures_identifier_clear :
    Rule.Ensures (touching text) Clear identifier (fun x => ¬IsKeyword x) Clear :=
  ensures_of_passed fun ha => ⟨passed_identifier ha, fun hplaced hclear =>
    (identifier_cases ha hplaced).imp_right fun ⟨hclear', hname⟩ =>
      ⟨.inl hclear', fun hkeyword => (hname hkeyword).1 hclear, hclear'⟩⟩

/-- At any position only keywords behind a digit are taken for names. -/
theorem ensures_identifier :
    Rule.Ensures (touching text) anywhere identifier (fun x => IsKeyword x → BehindDigit text x)
      Clear :=
  ensures_of_passed fun ha => ⟨passed_identifier ha, fun hplaced _ =>
    (identifier_cases ha hplaced).imp_right fun ⟨hclear', hname⟩ =>
      ⟨.inl hclear', fun hkeyword => (hname hkeyword).2, hclear'⟩⟩

theorem tokensEnsure {pre : Cursor → Prop} {name : String → Prop} (hpre : ∀ c, Clear c → pre c)
    (hidentifier : Rule.Ensures (touching text) pre identifier name Clear) :
    TokensEnsure (touching text) Clear pre name where
  of_clear := hpre
  keyword := ensures_keyword
  identifier := hidentifier
  sign hs := by
    simp only [expressionSigns, List.mem_cons, List.not_mem_nil, or_false] at hs
    rcases hs with rfl | rfl | rfl | rfl | rfl <;> exact ensures_symbol (by decide) (by decide)
  unaryOp := ensures_unaryOp
  binaryOp := ensures_binaryOp
  integer := ensures_integer
  string := ensures_string

/-- At clear positions. -/
theorem tokensEnsure_clear :
    TokensEnsure (touching text) Clear Clear fun x => ¬IsKeyword x :=
  tokensEnsure (fun _ => id) ensures_identifier_clear

/-- At any position. -/
theorem tokensEnsure_anywhere :
    TokensEnsure (touching text) Clear anywhere fun x => IsKeyword x → BehindDigit text x :=
  tokensEnsure (fun _ _ => True.intro) ensures_identifier

end Reader

end Kestrel
