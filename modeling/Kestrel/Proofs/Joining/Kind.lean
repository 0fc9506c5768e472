import Mathlib.Tactic.ByContra
import Kestrel.Proofs.Lockstep.Lexical
import Kestrel.Reader.Statement

/-!
# What a statement starts with

The kinds of statement are tried one after another, but the first token already tells which of them it
can be: three keywords and the opening brace start a kind of their own, and with none of them starts an
assignment or an expression. So no kind is tried in vain but for assignments.

* `keywordAt_unique` — at most one keyword stands at a position;
* `NoOperand`, `Barred` — what no expression starts with, and no assignment either;
* `statementAt_eq` — the kind of a statement by its first token;
* `Closed`, `Closed.statementAt` — where a row of statements ends.
-/

namespace Kestrel.Reader

variable {α β : Type} {c : Cursor}

/-! ### Rules that do not match -/

theorem bind_eq_no {p : Rule α} (h : p c = .no) (f : α → Rule β) : (p >>= f) c = .no := by
  rw [Rule.bind_run, h]

theorem orElse_of_no {p : Rule α} (h : p c = .no) (q : Rule α) : Rule.orElse p q c = q c := by
  rw [Rule.orElse, h]

theorem orElse_of_no_right {q : Rule α} (h : q c = .no) (p : Rule α) : Rule.orElse p q c = p c := by
  rw [Rule.orElse]
  split
  next hp => rw [h, hp]
  next => rfl

theorem oneOf_eq_no {ps : List (Rule α)} (h : ∀ p ∈ ps, p c = .no) : Rule.oneOf ps c = .no := by
  induction ps with
  | nil => rfl
  | cons p ps ih =>
    rw [List.forall_mem_cons] at h
    rw [Rule.oneOf, orElse_of_no h.1, ih h.2]

/-! ### First characters -/

theorem keyword_eq_no_iff {k : Keyword} : keyword k c = .no ↔ keywordAt k c.skip = false := by
  rw [keyword]
  cases keywordAt k c.skip <;> simp

theorem keyword_ne_no_iff {k : Keyword} : keyword k c ≠ .no ↔ keywordAt k c.skip = true := by
  rw [Ne, keyword_eq_no_iff, Bool.not_eq_false]

theorem isPrefixOf_of_keywordAt {k : Keyword} (h : keywordAt k c = true) :
    k.text.toList.isPrefixOf c.rest = true := by
  rw [keywordAt, Bool.and_eq_true, Bool.and_eq_true] at h
  exact h.1.1

/-- Only one keyword can stand at a position. -/
theorem keywordAt_unique {k l : Keyword} (hk : keywordAt k c = true) (hl : keywordAt l c = true) :
    k = l := by
  have hk' := List.isPrefixOf_iff_prefix.mp (isPrefixOf_of_keywordAt hk)
  have hl' := List.isPrefixOf_iff_prefix.mp (isPrefixOf_of_keywordAt hl)
  rcases List.prefix_or_prefix_of_prefix hk' hl' with h | h
  · rw [← List.isPrefixOf_iff_prefix, Written.isPrefixOf_keyword] at h
    exact of_decide_eq_true h
  · rw [← List.isPrefixOf_iff_prefix, Written.isPrefixOf_keyword] at h
    exact (of_decide_eq_true h).symm

theorem keyword_eq_no_of_keyword {k l : Keyword} (hk : keyword k c ≠ .no) (hkl : k ≠ l) :
    keyword l c = .no := by
  rw [keyword_eq_no_iff, Bool.eq_false_iff]
  exact fun hl => hkl (keywordAt_unique (keyword_ne_no_iff.mp hk) hl)

theorem keyword_eq_no_of_head (h : c.skip.rest.head?.any isNameStart = false) (k : Keyword) :
    keyword k c = .no := by
  rw [keyword_eq_no_iff, Bool.eq_false_iff]
  intro hk
  have hstarts := isPrefixOf_of_keywordAt hk
  rw [Written.isPrefixOf_eq_false_of_head (Written.isNameStart_head_keyword k) h] at hstarts
  cases hstarts

/-- A keyword starts with a letter. -/
theorem head_of_keyword {k : Keyword} (h : keyword k c ≠ .no) :
    c.skip.rest.head?.any isNameStart = true :=
  Bool.of_not_eq_false fun hhead => h (keyword_eq_no_of_head hhead k)

/-! ### What starts no expression -/

/-- The keywords that an expression may start with. -/
def operandKeywords : List Keyword := [.true, .false, .none, .print, .readFile, .split]

/-- The keywords that an assignment or an expression may start with. -/
def simpleKeywords : List Keyword := [.let, .true, .false, .none, .print, .readFile, .split]

/-- May an expression start with the character, if it starts with neither a name nor a keyword? -/
def startsOperand (c : Char) : Bool :=
  Text.isDecimalDigit c || c = '"' || c = '-' || c = '!' || c = '('

theorem startsOperand_of_isNameStart {x : Char} (h : isNameStart x = true) :
    startsOperand x = false := by
  have hdigit := Written.not_isDecimalDigit_of_isNameStart h
  simp only [startsOperand, hdigit, Bool.false_or, Bool.or_eq_false_iff, decide_eq_false_iff_not]
  refine ⟨⟨⟨?_, ?_⟩, ?_⟩, ?_⟩ <;> (rintro rfl; cases h)

theorem identifier_eq_no_of_head (h : c.skip.rest.head?.any isNameStart = false) :
    identifier c = .no := by
  rw [identifier, h]
  rfl

theorem identifier_eq_no_of_keyword {k : Keyword} (h : keyword k c ≠ .no) : identifier c = .no := by
  have hany : anyKeywordAt c.skip = true :=
    List.any_eq_true.mpr ⟨k, k.mem_all, keyword_ne_no_iff.mp h⟩
  rw [identifier, hany, Bool.not_true, Bool.and_false]
  rfl

/-- No expression starts at the position. -/
structure NoOperand (c : Cursor) : Prop where
  /-- there is no name -/
  name : identifier c = .no
  /-- there is no keyword that an expression may start with -/
  word : ∀ k ∈ operandKeywords, keyword k c = .no
  /-- there is nothing else that an expression may start with -/
  head : c.skip.rest.head?.any startsOperand = false

namespace NoOperand

/-- Other keywords start no expression. -/
theorem of_keyword {k : Keyword} (h : keyword k c ≠ .no) (hk : k ∉ operandKeywords) :
    NoOperand c where
  name := identifier_eq_no_of_keyword h
  word _ hl := keyword_eq_no_of_keyword h fun hkl => hk (hkl ▸ hl)
  head := by
    obtain ⟨x, hx, hletter⟩ := (Option.any_eq_true ..).mp (head_of_keyword h)
    rw [hx, Option.any_some, startsOperand_of_isNameStart hletter]

variable (h : NoOperand c)
include h

theorem head_ne {x : Char} (hx : startsOperand x = true) : c.skip.rest.head? ≠ some x := by
  intro hhead
  have hbar := h.head
  rw [hhead, Option.any_some, hx] at hbar
  cases hbar

theorem unaryOp : unaryOp c = .no := by
  rw [Reader.unaryOp]
  split
  next hrest => exact absurd (congrArg List.head? hrest) (h.head_ne (by decide))
  next hrest => exact absurd (congrArg List.head? hrest) (h.head_ne (by decide))
  next => rfl

theorem integer : integer c = .no := by
  have hdigits : c.skip.rest.takeWhile Text.isDecimalDigit = [] := by
    cases hrest : c.skip.rest with
    | nil => rfl
    | cons x xs =>
      refine List.takeWhile_cons_of_neg fun hx => ?_
      exact h.head_ne (by simp [startsOperand, hx]) (congrArg List.head? hrest)
  rw [Reader.integer, hdigits]
  rfl

theorem string : string c = .no := by
  rw [Reader.string]
  split
  next hrest => exact absurd (congrArg List.head? hrest) (h.head_ne (by decide))
  next => rfl

theorem operand (expression : Rule Node) (bound : Nat) : operand expression bound c = .no := by
  have hkeyword {k : Keyword} (hk : k ∈ operandKeywords) (f : Unit → Rule Node) :
      (keyword k >>= f) c = .no := bind_eq_no (h.word k hk) f
  refine oneOf_eq_no fun p hp => ?_
  simp only [operandForms, List.mem_cons, List.not_mem_nil, or_false] at hp
  rcases hp with rfl | rfl | rfl | rfl | rfl | rfl | rfl | rfl | rfl | rfl
  · exact bind_eq_no h.integer _
  · exact bind_eq_no h.string _
  iterate 6 exact hkeyword (by decide) _
  · exact bind_eq_no h.name _
  · exact bind_eq_no h.name _

theorem expressionAt (bound : Nat) : expressionAt (bound + 1) c = .no := by
  have hopen : symbol "(" c = .no := symbol_eq_no rfl (h.head_ne (by decide))
  have hstep : Chain.step (Reader.operand (Reader.expressionAt bound) bound) (Chain.start c) =
      .failed .missingOperand c.afterComments := by
    rw [Chain.start, Chain.step, Chain.stepOperand, h.unaryOp, h.operand, hopen]
  rw [Reader.expressionAt, chainAt_succ, Chain.run, hstep]
  rfl

end NoOperand

/-- Neither an assignment nor an expression starts at the position. -/
structure Barred (c : Cursor) : Prop where
  /-- there is no name -/
  name : identifier c = .no
  /-- there is no keyword that they may start with -/
  word : ∀ k ∈ simpleKeywords, keyword k c = .no
  /-- there is nothing else that they may start with -/
  head : c.skip.rest.head?.any startsOperand = false

namespace Barred

/-- Keywords of other statements bar an expression. -/
theorem of_keyword {k : Keyword} (h : keyword k c ≠ .no) (hk : k ∉ simpleKeywords) : Barred c where
  name := identifier_eq_no_of_keyword h
  word _ hl := keyword_eq_no_of_keyword h fun hkl => hk (hkl ▸ hl)
  head := (NoOperand.of_keyword h fun hk' => hk (List.mem_cons_of_mem _ hk')).head

/-- Other characters bar an expression. -/
theorem of_head (hname : c.skip.rest.head?.any isNameStart = false)
    (h : c.skip.rest.head?.any startsOperand = false) : Barred c where
  name := identifier_eq_no_of_head hname
  word k _ := keyword_eq_no_of_head hname k
  head := h

variable (h : Barred c)
include h

theorem noOperand : NoOperand c where
  name := h.name
  word k hk := h.word k (List.mem_cons_of_mem _ hk)
  head := h.head

theorem simple (bound : Nat) : simple (Reader.expressionAt (bound + 1)) c = .no := by
  have hassign : assignment (Reader.expressionAt (bound + 1)) c = .no := by
    have hlet : Rule.optional (keyword .let) c = .ok Option.none c :=
      orElse_of_no (bind_eq_no (h.word .let (by decide)) _) _
    rw [assignment, Rule.bind_run, hlet]
    exact bind_eq_no h.name _
  refine bind_eq_no ?_ _
  rw [orElse_of_no hassign, h.noOperand.expressionAt]

end Barred

/-! ### Kinds of statement -/

section Kinds

variable {expression body : Rule Node} {n : Nat}

theorem declaration_eq_no (h : keyword .function c = .no) : declaration body n c = .no :=
  bind_eq_no h _

theorem loop_eq_no (h : keyword .for c = .no) : loop expression body c = .no :=
  bind_eq_no h _

theorem conditional_eq_no (h : keyword .if c = .no) : conditional expression body (n + 1) c = .no :=
  bind_eq_no h _

theorem block_eq_no (h : symbol "\x7b" c = .no) : block body n c = .no :=
  bind_eq_no h _

end Kinds

theorem brace_eq_no_of_keyword {k : Keyword} (h : keyword k c ≠ .no) : symbol "\x7b" c = .no := by
  refine symbol_eq_no rfl fun hx => ?_
  have hletter := head_of_keyword h
  rw [hx] at hletter
  cases hletter

theorem keyword_eq_no_of_brace (h : symbol "\x7b" c ≠ .no) (k : Keyword) : keyword k c = .no := by
  by_contra hk
  exact h (brace_eq_no_of_keyword hk)

theorem Barred.of_symbol (h : symbol "\x7b" c ≠ .no) : Barred c := by
  have hhead : c.skip.rest.head? = some '{' := by
    by_contra hhead
    exact h (symbol_eq_no rfl hhead)
  refine .of_head ?_ ?_ <;> rw [hhead] <;> decide +kernel

/-- The first token tells the kind of a statement. -/
theorem statementAt_eq (n : Nat) (c : Cursor) :
    statementAt (n + 1) c =
      if keyword .function c ≠ .no then declaration (block (statementAt n) (n + 1)) (n + 1) c
      else if keyword .for c ≠ .no then
        loop (expressionAt (n + 1)) (block (statementAt n) (n + 1)) c
      else if keyword .if c ≠ .no then
        conditional (expressionAt (n + 1)) (block (statementAt n) (n + 1)) (n + 1) c
      else if symbol "\x7b" c ≠ .no then block (statementAt n) (n + 1) c
      else simple (expressionAt (n + 1)) c := by
  rw [statementAt, statementOf, statementForms]
  simp only [Rule.oneOf]
  by_cases hfunction : keyword .function c = .no
  · rw [if_neg (not_not_intro hfunction), orElse_of_no (declaration_eq_no hfunction)]
    by_cases hfor : keyword .for c = .no
    · rw [if_neg (not_not_intro hfor), orElse_of_no (loop_eq_no hfor)]
      by_cases hif : keyword .if c = .no
      · rw [if_neg (not_not_intro hif), orElse_of_no (conditional_eq_no hif)]
        by_cases hbrace : symbol "\x7b" c = .no
        · rw [if_neg (not_not_intro hbrace), orElse_of_no (block_eq_no hbrace),
            orElse_of_no_right rfl]
        · rw [if_pos hbrace, orElse_of_no_right]
          rw [orElse_of_no ((Barred.of_symbol hbrace).simple n)]
          rfl
      · rw [if_pos hif, orElse_of_no_right]
        rw [orElse_of_no (block_eq_no (brace_eq_no_of_keyword hif)),
          orElse_of_no ((Barred.of_keyword hif (by decide)).simple n)]
        rfl
    · rw [if_pos hfor, orElse_of_no_right]
      rw [orElse_of_no (conditional_eq_no (keyword_eq_no_of_keyword hfor (by decide))),
        orElse_of_no (block_eq_no (brace_eq_no_of_keyword hfor)),
        orElse_of_no ((Barred.of_keyword hfor (by decide)).simple n)]
      rfl
  · rw [if_pos hfunction, orElse_of_no_right]
    rw [orElse_of_no (loop_eq_no (keyword_eq_no_of_keyword hfunction (by decide))),
      orElse_of_no (conditional_eq_no (keyword_eq_no_of_keyword hfunction (by decide))),
      orElse_of_no (block_eq_no (brace_eq_no_of_keyword hfunction)),
      orElse_of_no ((Barred.of_keyword hfunction (by decide)).simple n)]
    rfl

/-- No statement starts with `else`. -/
theorem statementAt_else (h : keyword .else c ≠ .no) (n : Nat) : statementAt (n + 1) c = .no := by
  have hno {k : Keyword} (hk : .else ≠ k) : keyword k c = .no := keyword_eq_no_of_keyword h hk
  rw [statementAt_eq, if_neg (not_not_intro (hno (by decide))),
    if_neg (not_not_intro (hno (by decide))), if_neg (not_not_intro (hno (by decide))),
    if_neg (not_not_intro (brace_eq_no_of_keyword h))]
  exact (Barred.of_keyword h (by decide)).simple n

/-! ### The end of a row of statements -/

/-- The text ends at the position, or a closing brace stands there. -/
def Closed (c : Cursor) : Prop := ∀ x, c.skip.rest.head? = some x → x = '}'

namespace Closed

theorem of_skip (h : c.skip.rest = []) : Closed c := by
  intro x hx
  rw [h] at hx
  cases hx

theorem of_rest (h : c.rest = []) : Closed c := by
  refine of_skip ?_
  rw [Cursor.skip, h]
  rfl

variable (h : Closed c)
include h

theorem head_eq_false {p : Char → Bool} (hp : p '}' = false) :
    c.skip.rest.head?.any p = false := by
  rw [← Bool.not_eq_true, Option.any_eq_true]
  rintro ⟨x, hx, hpx⟩
  rw [h x hx, hp] at hpx
  cases hpx

theorem keyword (k : Keyword) : keyword k c = .no :=
  keyword_eq_no_of_head (h.head_eq_false (by decide)) k

theorem statementAt (n : Nat) : statementAt (n + 1) c = .no := by
  have hbrace : symbol "\x7b" c = .no := by
    refine symbol_eq_no rfl fun hx => ?_
    exact absurd (h _ hx) (by decide)
  rw [statementAt_eq, if_neg (not_not_intro (h.keyword _)), if_neg (not_not_intro (h.keyword _)),
    if_neg (not_not_intro (h.keyword _)), if_neg (not_not_intro hbrace)]
  exact (Barred.of_head (h.head_eq_false (by decide)) (h.head_eq_false (by decide +kernel))).simple n

end Closed

end Kestrel.Reader
