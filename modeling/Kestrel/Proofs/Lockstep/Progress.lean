import Kestrel.Proofs.Lockstep.Lexical
import Kestrel.Proofs.Lockstep.Statement
import Kestrel.Reader.Program

/-!
# Reading makes progress

A rule that matches leaves less text than it found, but for the few that may match nothing, and those are
never repeated. So no rule is applied more often, one inside or one after another, than the text has
characters, and the bounds on nesting and repetition are out of reach.

* `Parsed.Spends`, `Rule.Spends` — at least so many characters are read, and only an integer that is too
  long stops the reading;
* `Rule.Spends.bind`, `Rule.Spends.many` and others — the ways to build rules;
* `Chain.spends_step`, `Chain.spends_run` — the machine for expressions;
* `spends_expressionAt`, `spends_statementAt` — expressions and statements read something;
* `blames_of_readStatements`, `blames_of_readExpression` — only an integer that is too long stops the
  reading of a text, so no text reaches the bounds.
-/

namespace Kestrel.Reader

open Text

variable {α β : Type}

/-- More decimal digits follow each other in the text than an integer may have. -/
def HasLongInteger (cs : List Char) : Prop :=
  ∃ ds, ds <:+: cs ∧ (∀ d ∈ ds, isDecimalDigit d) ∧ digitLimit < ds.length

theorem HasLongInteger.of_suffix {cs cs' : List Char} (h : HasLongInteger cs) (hcs : cs <:+ cs') :
    HasLongInteger cs' := by
  obtain ⟨ds, hds, hdigits⟩ := h
  exact ⟨ds, hds.trans hcs.isInfix, hdigits⟩

/-- The reading was stopped because an integer in the text is too long. -/
def Halt.Blames (cs : List Char) (reason : Halt) : Prop :=
  reason = .tooManyDigits ∧ HasLongInteger cs

theorem Halt.Blames.of_suffix {cs cs' : List Char} {reason : Halt} (h : reason.Blames cs)
    (hcs : cs <:+ cs') : reason.Blames cs' :=
  h.imp_right (·.of_suffix hcs)

/-- The position lies in the text, behind at least `k` of its characters. -/
def Cursor.Behind (cs : List Char) (k : Nat) (c : Cursor) : Prop :=
  c.rest <:+ cs ∧ c.rest.length + k ≤ cs.length

/-- Of the text at least `k` characters were read, unless the rule does not match or an integer is too
long. -/
def Parsed.Spends (cs : List Char) (k : Nat) : Parsed α → Prop
  | .ok _ c => c.Behind cs k
  | .no => True
  | .halt reason => reason.Blames cs

/-- Where the text has at most `n` characters, the rule reads at least `k` of them if it matches, and it
reaches no bound on the number of steps. -/
def Rule.Spends (n k : Nat) (p : Rule α) : Prop :=
  ∀ c, c.rest.length ≤ n → (p c).Spends c.rest k

namespace Rule.Spends

variable {p q : Rule α} {n k j : Nat}

theorem of_le {m : Nat} (h : p.Spends n k) (hmn : m ≤ n) : p.Spends m k :=
  fun c hc => h c (Nat.le_trans hc hmn)

theorem ne_exhausted (h : p.Spends n k) (c : Cursor) (hc : c.rest.length ≤ n) :
    p c ≠ .halt .exhausted := by
  intro hrun
  have hp := h c hc
  rw [hrun] at hp
  cases hp.1

theorem mono (h : p.Spends n k) (hjk : j ≤ k) : p.Spends n j := by
  intro c hc
  have hp := h c hc
  generalize p c = r at hp ⊢
  cases r with
  | ok a c' =>
    obtain ⟨hsuffix, hleft⟩ := hp
    exact ⟨hsuffix, by omega⟩
  | no => trivial
  | halt reason => exact hp

theorem pure (a : α) : (Pure.pure a : Rule α).Spends n 0 :=
  fun c _ => ⟨List.suffix_refl c.rest, Nat.le_refl c.rest.length⟩

/-- What the first rule has read is not there for the second one. -/
theorem bind {f : α → Rule β} (hp : p.Spends n k)
    (hf : ∀ a m, m + k ≤ n → (f a).Spends m j) : (p >>= f).Spends n (k + j) := by
  intro c hc
  have hfirst := hp c hc
  rw [Rule.bind_run]
  generalize p c = r at hfirst ⊢
  cases r with
  | ok a c' =>
    obtain ⟨hsuffix, hleft⟩ := hfirst
    have hsecond := hf a c'.rest.length (by omega) c' (Nat.le_refl _)
    dsimp only
    generalize f a c' = r' at hsecond ⊢
    cases r' with
    | ok b c'' =>
      obtain ⟨hsuffix', hleft'⟩ := hsecond
      exact ⟨hsuffix'.trans hsuffix, by omega⟩
    | no => trivial
    | halt reason => exact hsecond.of_suffix hsuffix
  | no => trivial
  | halt reason => exact hfirst

/-- Where the first rule reads something, the second one may read nothing. -/
theorem first {f : α → Rule β} (hp : p.Spends n 1) (hf : ∀ a m, m < n → (f a).Spends m 0) :
    (p >>= f).Spends n 1 :=
  hp.bind hf

/-- The same, where it does not matter that something is read. -/
theorem next {f : α → Rule β} (hp : p.Spends n 1) (hf : ∀ a m, m < n → (f a).Spends m 0) :
    (p >>= f).Spends n 0 :=
  (hp.first hf).mono (Nat.zero_le 1)

theorem orElse (hp : p.Spends n k) (hq : q.Spends n k) : (Rule.orElse p q).Spends n k := by
  intro c hc
  have hfirst := hp c hc
  rw [Rule.orElse]
  generalize p c = r at hfirst ⊢
  cases r with
  | no => exact hq c hc
  | ok | halt => exact hfirst

theorem oneOf {ps : List (Rule α)} (h : ∀ p ∈ ps, p.Spends n k) : (Rule.oneOf ps).Spends n k := by
  induction ps with
  | nil => exact fun _ _ => trivial
  | cons p ps ih =>
    exact orElse (h p List.mem_cons_self) (ih fun q hq => h q (List.mem_cons_of_mem _ hq))

theorem optional (hp : p.Spends n k) : (Rule.optional p).Spends n 0 :=
  orElse ((hp.mono (Nat.zero_le k)).bind fun a _ _ => pure (some a)) (pure none)

/-- A rule that reads something is repeated at most as often as there are characters. -/
theorem many {bound : Nat} (hp : p.Spends n 1) (hbound : n < bound) :
    (Rule.many p bound).Spends n 0 := by
  induction bound generalizing n with
  | zero => omega
  | succ bound ih =>
    refine orElse (hp.next fun a m hm => ?_) (pure [])
    have hmore : (Rule.many p bound).Spends m 0 := ih (hp.of_le (by omega)) (by omega)
    exact hmore.bind fun as _ _ => pure (a :: as)

end Rule.Spends

/-! ### Tokens -/

section Tokens

variable (n : Nat)

/-- Some characters of the text are read. -/
theorem Parsed.spends_advance {c : Cursor} {k : Nat} (hpos : 0 < k) (hk : k ≤ c.skip.rest.length)
    (a : α) : (Parsed.ok a (c.skip.advance k)).Spends c.rest 1 := by
  have hskip := skip_suffix c
  have hlength := hskip.length_le
  have hdrop : (c.skip.advance k).rest.length = c.skip.rest.length - k := List.length_drop
  exact ⟨(List.drop_suffix k c.skip.rest).trans hskip, by omega⟩

/-- A word that stands at the position is read. -/
theorem Parsed.spends_isPrefixOf {c : Cursor} {w : List Char} (hw : w ≠ [])
    (h : w.isPrefixOf c.skip.rest) (a : α) :
    (Parsed.ok a (c.skip.advance w.length)).Spends c.rest 1 :=
  spends_advance (List.length_pos_iff.mpr hw) (List.isPrefixOf_iff_prefix.mp h).length_le a

theorem spends_keyword (k : Keyword) : (keyword k).Spends n 1 := by
  intro c _
  rw [keyword]
  split
  next hk =>
    rw [keywordAt, Bool.and_eq_true, Bool.and_eq_true] at hk
    exact Parsed.spends_isPrefixOf (by cases k <;> decide) hk.1.1 ()
  next => trivial

theorem spends_identifier : identifier.Spends n 1 := by
  intro c _
  rw [identifier]
  split
  next hname =>
    rw [Bool.and_eq_true] at hname
    exact Parsed.spends_advance (List.length_pos_iff.mpr (takeWhile_isNameChar_ne_nil hname.1))
      (List.takeWhile_prefix _).length_le _
  next => trivial

theorem spends_symbol {s : String} (hs : s.toList ≠ []) : (symbol s).Spends n 1 := by
  intro c _
  rw [symbol]
  split
  next hstarts => exact Parsed.spends_isPrefixOf hs hstarts ()
  next => trivial

theorem spends_assignSign : assignSign.Spends n 1 := by
  intro c _
  rw [assignSign]
  split
  next hsign =>
    rw [Bool.and_eq_true] at hsign
    exact Parsed.spends_isPrefixOf (by decide) hsign.1 ()
  next => trivial

theorem spends_unaryOp : unaryOp.Spends n 1 := by
  intro c _
  rw [unaryOp_eq]
  split
  next hneg => exact Parsed.spends_isPrefixOf (by decide) hneg UnaryOp.neg
  next =>
    split
    next hnot => exact Parsed.spends_isPrefixOf (by decide) hnot UnaryOp.not
    next => trivial

theorem spends_binaryOp : binaryOp.Spends n 1 := by
  intro c _
  rw [binaryOp]
  split
  next op hop =>
    have hstarts := List.find?_some hop
    exact Parsed.spends_isPrefixOf (by cases op <;> decide) hstarts op
  next => trivial

theorem spends_integer : integer.Spends n 1 := by
  intro c _
  have hlength := List.length_filterMap_le decimalDigit? (c.skip.rest.takeWhile isDecimalDigit)
  have hprefix := List.takeWhile_prefix isDecimalDigit (l := c.skip.rest)
  rw [integer]
  split
  next => trivial
  next ds hne =>
    split
    next m _ =>
      exact Parsed.spends_advance (List.length_pos_iff.mpr hne) (Nat.le_trans hlength hprefix.length_le) m
    next hnone =>
      rw [ofDigits?] at hnone
      refine ⟨rfl, c.skip.rest.takeWhile isDecimalDigit, ?_, ?_, ?_⟩
      · exact hprefix.isInfix.trans (skip_suffix c).isInfix
      · exact List.all_eq_true.mp List.all_takeWhile
      · split at hnone
        next => cases hnone
        next hlong => omega

theorem spends_string : string.Spends n 1 := by
  intro c _
  by_cases hquote : c.skip.rest.head? = some '"'
  · obtain ⟨cs, hrest⟩ := List.head?_eq_some_iff.mp hquote
    rw [string_eq hrest]
    split
    next raw hraw =>
      have hlength := length_of_quoted? hraw
      refine Parsed.spends_advance (Nat.succ_pos _) ?_ _
      rw [hrest, List.length_cons]
      omega
    next => trivial
  · rw [string_eq_no hquote]
    trivial

end Tokens

/-! ### The machine -/

namespace Chain

/-- How many characters an expression still needs at least: where an operand is to come, one. -/
def State.owed (s : State) : Nat := if s.current.isNone then 1 else 0

/-- Of the text at least `k` characters were read if an expression has ended, and at least one if it goes
on. -/
def Next.Spends (cs : List Char) (k : Nat) : Next → Prop
  | .more s => s.cursor.Behind cs 1
  | .done _ c => c.Behind cs k
  | .failed _ _ => True
  | .halt reason => reason.Blames cs

variable {operand : Rule Node} {n : Nat}

theorem spends_stepOperand (hop : operand.Spends n 1) {s : State} (hs : s.cursor.rest.length ≤ n) :
    (stepOperand operand s).Spends s.cursor.rest 1 := by
  have hunary := spends_unaryOp n s.cursor hs
  have hoperand := hop s.cursor hs
  have hopen := spends_symbol n (s := "(") (by decide) s.cursor hs
  rw [stepOperand]
  generalize unaryOp s.cursor = r at hunary ⊢
  generalize operand s.cursor = r' at hoperand ⊢
  generalize symbol "(" s.cursor = r'' at hopen ⊢
  cases r with
  | ok op c => exact hunary
  | no | halt =>
    cases r' with
    | ok e c => exact hoperand
    | halt reason => exact hoperand
    | no =>
      cases r'' with
      | ok _ c => exact hopen
      | no | halt => trivial

theorem close_cursor (s : State) (e : Node) (c : Cursor) : (close s e c).cursor = c := by
  rw [close]
  split <;> rfl

theorem spends_finish (s : State) (e : Node) : (finish s e).Spends s.cursor.rest 0 := by
  rw [finish]
  split
  · exact ⟨List.suffix_refl _, Nat.le_refl _⟩
  · trivial

theorem spends_stepOperator (s : State) (e : Node) :
    (stepOperator s e).Spends s.cursor.rest 0 := by
  have hclose := spends_symbol s.cursor.rest.length (s := ")") (by decide) s.cursor (Nat.le_refl _)
  have hcolon := spends_symbol s.cursor.rest.length (s := ":") (by decide) s.cursor (Nat.le_refl _)
  have hbinary := spends_binaryOp s.cursor.rest.length s.cursor (Nat.le_refl _)
  have hquestion := spends_symbol s.cursor.rest.length (s := "?") (by decide) s.cursor (Nat.le_refl _)
  rw [stepOperator]
  split
  next c hparen =>
    split at hparen
    · cases hparen
    · rw [hparen] at hclose
      rw [Next.Spends, close_cursor]
      exact hclose
  next =>
    split
    next c _ _ _ hsymbol _ =>
      rw [hsymbol] at hcolon
      exact hcolon
    next =>
      split
      next op c hop =>
        rw [hop] at hbinary
        exact hbinary
      next =>
        split
        next c hsymbol =>
          rw [hsymbol] at hquestion
          exact hquestion
        next => exact spends_finish s e

theorem spends_step (hop : operand.Spends n 1) {s : State} (hs : s.cursor.rest.length ≤ n) :
    (step operand s).Spends s.cursor.rest s.owed := by
  obtain ⟨stack, unclosed, current, c⟩ := s
  cases current with
  | none => exact spends_stepOperand hop hs
  | some e => exact spends_stepOperator ⟨stack, unclosed, some e, c⟩ e

/-- The machine makes at most as many steps as there are characters, and one to stop. -/
theorem spends_run (hop : operand.Spends n 1) {bound : Nat} {s : State}
    (hs : s.cursor.rest.length ≤ n) (hbound : s.cursor.rest.length < bound) :
    (run operand bound s).Spends s.cursor.rest s.owed := by
  induction bound generalizing s with
  | zero => omega
  | succ bound ih =>
    have hstep := spends_step hop hs
    rw [run]
    generalize step operand s = next at hstep ⊢
    cases next with
    | more s' =>
      obtain ⟨hsuffix, hleft⟩ := hstep
      have hrun := ih (s := s') (by omega) (by omega)
      dsimp only
      generalize run operand bound s' = next at hrun ⊢
      cases next with
      | more s'' =>
        obtain ⟨hsuffix', hleft'⟩ := hrun
        exact ⟨hsuffix'.trans hsuffix, by omega⟩
      | done e c =>
        obtain ⟨hsuffix', hleft'⟩ := hrun
        have howed : s.owed ≤ 1 := by
          rw [State.owed]
          split <;> omega
        exact ⟨hsuffix'.trans hsuffix, by omega⟩
      | failed => trivial
      | halt reason => exact hrun.of_suffix hsuffix
    | done | failed | halt => exact hstep

/-- The machine does not stop between two steps. -/
theorem run_ne_more (bound : Nat) (s s' : State) : run operand bound s ≠ .more s' := by
  induction bound generalizing s with
  | zero => nofun
  | succ bound ih =>
    rw [run]
    split
    next s₁ _ => exact ih s₁
    next hmore => exact hmore s'

theorem Next.Spends.toParsed {cs : List Char} {k : Nat} {next : Next} (h : next.Spends cs k) :
    next.toParsed.Spends cs k := by
  cases next with
  | more | failed => trivial
  | done e c => exact h
  | halt reason => exact h

end Chain

/-! ### Expressions -/

theorem spends_commaList {p : Rule α} {n bound : Nat} (hp : p.Spends n 1) (hbound : n < bound) :
    (commaList p bound).Spends n 0 := by
  have hcomma (m : Nat) : (symbol ",").Spends m 1 := spends_symbol m (by decide)
  refine .orElse (hp.next fun a m hm => ?_) (.pure [])
  have hmore : (do symbol ","; p : Rule α).Spends m 1 :=
    (hcomma m).first fun _ m' hm' => (hp.of_le (by omega)).mono (Nat.zero_le 1)
  exact (hmore.many (by omega)).bind fun as _ _ => .pure (a :: as)

section Expressions

variable {expression : Rule Node} {n bound : Nat} (h : ∀ m < n, expression.Spends m 1)
include h

/-- An expression in parentheses after a keyword. -/
theorem spends_parenthesized (k : Keyword) (f : Node → Node) :
    (do keyword k; symbol "("; let e ← expression; symbol ")"; pure (f e) : Rule Node).Spends n 1 :=
  (spends_keyword n k).first fun _ _ h₁ =>
    (spends_symbol _ (by decide)).next fun _ _ h₂ => (h _ (by omega)).next fun _ _ _ =>
      (spends_symbol _ (by decide)).next fun _ _ _ => .pure _

theorem spends_operand (hbound : n ≤ bound) : (operand expression bound).Spends n 1 := by
  refine .oneOf fun p hp => ?_
  rw [operandForms] at hp
  simp only [List.mem_cons, List.not_mem_nil, or_false] at hp
  -- literals, then the built-in functions, calls and names
  rcases hp with rfl | rfl | rfl | rfl | rfl | rfl | rfl | rfl | rfl | rfl
  · exact (spends_integer n).first fun _ _ _ => .pure _
  · exact (spends_string n).first fun _ _ _ => .pure _
  · exact (spends_keyword n .true).first fun _ _ _ => .pure _
  · exact (spends_keyword n .false).first fun _ _ _ => .pure _
  · exact (spends_keyword n .none).first fun _ _ _ => .pure _
  · exact spends_parenthesized h .print Node.print
  · exact spends_parenthesized h .readFile Node.read
  · exact (spends_keyword n .split).first fun _ _ h₁ =>
      (spends_symbol _ (by decide)).next fun _ _ h₂ => (h _ (by omega)).next fun _ _ h₃ =>
        (spends_symbol _ (by decide)).next fun _ _ h₄ => (h _ (by omega)).next fun _ _ _ =>
          (spends_symbol _ (by decide)).next fun _ _ _ => .pure _
  · exact (spends_identifier n).first fun _ _ h₁ =>
      (spends_symbol _ (by decide)).next fun _ _ h₂ =>
        (spends_commaList (h _ (by omega)) (by omega)).bind fun _ _ _ =>
          (spends_symbol _ (by decide)).next fun _ _ _ => .pure _
  · exact (spends_identifier n).first fun _ _ _ => .pure _

end Expressions

/-- An expression reads something. -/
theorem spends_chainAt {n bound : Nat} (hbound : n < bound) {c : Cursor} (hc : c.rest.length ≤ n) :
    (chainAt bound c).Spends c.rest 1 := by
  induction bound generalizing n c with
  | zero => omega
  | succ bound ih =>
    have hexpression (m : Nat) (hm : m < n) : (expressionAt bound).Spends m 1 :=
      fun c' hc' => (ih (n := m) (by omega) hc').toParsed
    rw [chainAt_succ]
    exact Chain.spends_run (spends_operand hexpression (by omega)) (s := Chain.start c) hc
      (show c.rest.length < bound + 1 by omega)

theorem spends_expressionAt {n bound : Nat} (hbound : n < bound) :
    (expressionAt bound).Spends n 1 :=
  fun _ hc => (spends_chainAt hbound hc).toParsed

/-! ### Statements -/

section Statements

variable {expression body : Rule Node} {n bound : Nat}

theorem spends_block {statement : Rule Node} (h : ∀ m < n, statement.Spends m 1)
    (hbound : n ≤ bound) : (block statement bound).Spends n 1 :=
  (spends_symbol n (by decide)).first fun _ _ h₁ =>
    ((h _ h₁).many (by omega)).bind fun _ _ _ =>
      (spends_symbol _ (by decide)).next fun _ _ _ => .pure _

theorem spends_declaration (hbody : ∀ m < n, body.Spends m 1) (hbound : n ≤ bound) :
    (declaration body bound).Spends n 1 :=
  (spends_keyword n .function).first fun _ _ h₁ =>
    (spends_identifier _).next fun _ _ h₂ => (spends_symbol _ (by decide)).next fun _ _ h₃ =>
      (spends_commaList (spends_identifier _) (by omega)).bind fun _ _ h₄ =>
        (spends_symbol _ (by decide)).next fun _ _ h₅ =>
          (hbody _ (by omega)).next fun _ _ _ => .pure _

theorem spends_loop (h : ∀ m < n, expression.Spends m 1) (hbody : ∀ m < n, body.Spends m 1) :
    (loop expression body).Spends n 1 :=
  (spends_keyword n .for).first fun _ _ h₁ =>
    (spends_symbol _ (by decide)).next fun _ _ h₂ => (spends_identifier _).next fun _ _ h₃ =>
      (spends_keyword _ .in).next fun _ _ h₄ => (h _ (by omega)).next fun _ _ h₅ =>
        (spends_symbol _ (by decide)).next fun _ _ h₆ => (h _ (by omega)).next fun _ _ h₇ =>
          (spends_symbol _ (by decide)).next fun _ _ h₈ =>
            (hbody _ (by omega)).next fun _ _ _ => .pure _

theorem spends_conditionalWith {other : Rule Node} (h : ∀ m < n, expression.Spends m 1)
    (hbody : ∀ m < n, body.Spends m 1) (hother : ∀ m < n, other.Spends m 1) :
    (conditionalWith expression body other).Spends n 1 := by
  refine (spends_keyword n .if).first fun _ m₁ h₁ =>
    (spends_symbol _ (by decide)).next fun _ m₂ h₂ => (h _ (by omega)).next fun _ m₃ h₃ =>
      (spends_symbol _ (by decide)).next fun _ m₄ h₄ => (hbody _ (by omega)).next fun _ m₅ h₅ => ?_
  have helse : (do keyword .else; Rule.orElse other body : Rule Node).Spends m₅ 1 := by
    refine (spends_keyword _ .else).first fun _ m₆ h₆ => Rule.Spends.orElse ?_ ?_
    · exact (hother _ (by omega)).mono (Nat.zero_le 1)
    · exact (hbody _ (by omega)).mono (Nat.zero_le 1)
  exact helse.optional.bind fun _ _ _ => .pure _

theorem spends_conditional (h : ∀ m < n, expression.Spends m 1) (hbody : ∀ m < n, body.Spends m 1)
    (hbound : n < bound) : (conditional expression body bound).Spends n 1 := by
  induction bound generalizing n with
  | zero => omega
  | succ bound ih =>
    rw [conditional_succ]
    exact spends_conditionalWith h hbody fun m hm =>
      ih (fun m' hm' => h m' (by omega)) (fun m' hm' => hbody m' (by omega)) (by omega)

theorem spends_assignment (h : ∀ m ≤ n, expression.Spends m 1) : (assignment expression).Spends n 1 :=
  ((spends_keyword n .let).optional.bind fun _ _ h₁ =>
    (spends_identifier _).first fun _ _ h₂ => spends_assignSign _ |>.next fun _ _ h₃ =>
      (h _ (by omega)).next fun _ _ _ => .pure _).mono (Nat.le_refl 1)

theorem spends_simple (h : ∀ m ≤ n, expression.Spends m 1) : (simple expression).Spends n 1 :=
  (Rule.Spends.orElse (spends_assignment h) (h n (Nat.le_refl n))).first fun _ _ _ =>
    ((spends_symbol _ (by decide)).optional.bind fun _ _ _ => .pure ()).bind fun _ _ _ => .pure _

end Statements

/-- A statement reads something. -/
theorem spends_statementAt {n bound : Nat} (hbound : n < bound) : (statementAt bound).Spends n 1 := by
  induction bound generalizing n with
  | zero => omega
  | succ bound ih =>
    have hexpression (m : Nat) (hm : m ≤ n) : (expressionAt (bound + 1)).Spends m 1 :=
      spends_expressionAt (by omega)
    have hblock (m : Nat) (hm : m ≤ n) : (block (statementAt bound) (bound + 1)).Spends m 1 :=
      spends_block (fun m' hm' => ih (by omega)) (by omega)
    refine .oneOf fun p hp => ?_
    simp only [statementForms, List.mem_cons, List.not_mem_nil, or_false] at hp
    rcases hp with rfl | rfl | rfl | rfl | rfl
    · exact spends_declaration (fun m hm => hblock m (by omega)) (by omega)
    · exact spends_loop (fun m hm => hexpression m (by omega)) fun m hm => hblock m (by omega)
    · exact spends_conditional (fun m hm => hexpression m (by omega))
        (fun m hm => hblock m (by omega)) hbound
    · exact hblock n (Nat.le_refl n)
    · exact spends_simple hexpression

/-! ### Texts -/

/-- Reading the statements of a text reaches no bound. -/
theorem statements_ne_exhausted {n : Nat} {c : Cursor} (hc : c.rest.length < n) :
    Rule.many (statementAt n) n c ≠ .halt .exhausted :=
  ((spends_statementAt hc).many hc).ne_exhausted c (Nat.le_refl _)

theorem atEnd_ne_halted (a : α) (c : Cursor) (reason : Halt) : atEnd a c ≠ .error (.halted reason) := by
  rw [atEnd]
  split <;> nofun

/-- If the reading of statements is stopped, then by an integer that is too long. -/
theorem blames_of_readStatements {cs : List Char} {reason : Halt}
    (h : readStatements cs = .error (.halted reason)) : reason.Blames cs := by
  have hbound : cs.length < readingBound cs := by
    rw [readingBound]
    omega
  have hmany := (spends_statementAt hbound).many hbound (Cursor.start cs) (Nat.le_refl _)
  rw [readStatements] at h
  generalize Rule.many _ _ _ = r at h hmany
  cases r with
  | ok ns c => exact absurd h (atEnd_ne_halted ns c reason)
  | no => cases h
  | halt reason =>
    cases h
    exact hmany

/-- If the reading of an expression is stopped, then by an integer that is too long. -/
theorem blames_of_readExpression {cs : List Char} {reason : Halt}
    (h : readExpression cs = .error (.halted reason)) : reason.Blames cs := by
  have hbound : cs.length < readingBound cs := by
    rw [readingBound]
    omega
  have hchain := spends_chainAt hbound (c := Cursor.start cs) (Nat.le_refl _)
  have hmore (s : Chain.State) : chainAt (readingBound cs) (Cursor.start cs) ≠ .more s :=
    Chain.run_ne_more _ _ s
  rw [readExpression] at h
  generalize chainAt _ _ = next at h hchain hmore
  cases next with
  | more s => exact absurd rfl (hmore s)
  | done e c => exact absurd h (atEnd_ne_halted e c reason)
  | failed => cases h
  | halt reason =>
    cases h
    exact hchain

theorem readStatements_ne_exhausted (cs : List Char) :
    readStatements cs ≠ .error (.halted .exhausted) := by
  intro h
  cases (blames_of_readStatements h).1

theorem readExpression_ne_exhausted (cs : List Char) :
    readExpression cs ≠ .error (.halted .exhausted) := by
  intro h
  cases (blames_of_readExpression h).1

end Kestrel.Reader
