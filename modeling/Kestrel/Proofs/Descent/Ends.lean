import Mathlib.Data.Prod.Lex
import Mathlib.Logic.Relation
import Kestrel.Proofs.Descent.Part
import Kestrel.Proofs.Written.Tabs

/-!
# Reading ends

While a part of the grammar is read, others are tried inside it, and while those are read, others again.
Every such try has less text in front of it than the one it belongs to, or it has the same text and is
for a tighter part. So tries do not lead to each other for ever, none leads to itself, and the parts are
the only rules that are built of each other as the grammar says.

* `Rule.Consumes` — what matches leaves less text;
* `Try`, `Part.except` — a part that is tried at a position, and the parts with some tries ruled out;
* `Try.LeadsTo` — the tries that the reading of a part depends on;
* `Try.measure`, `Try.LeadsTo.measure_lt` — what gets less from one try to the next;
* `reading_ends` — statements, expressions and whatever is repeated read something, no try leads to
  itself, and every text has an outcome.
-/

namespace Kestrel.Reader

variable {α : Type}

/-! ### Nothing matches without reading -/

/-- Where the rule matches, it leaves less text than it found. -/
def Rule.Consumes (p : Rule α) : Prop :=
  ∀ ⦃c a c'⦄, p c = .ok a c' → c'.rest.length < c.rest.length

theorem Rule.consumes_of_spends {p : Rule α} (h : ∀ n, p.Spends n 1) : p.Consumes := by
  intro c a c' hc
  have hp := h _ c (Nat.le_refl _)
  rw [hc] at hp
  exact hp.2

/-- What matches under a bound matches without one. -/
theorem Follows.consumes {p q : Rule α} (hpq : Follows Eq p q) (hq : q.Consumes) : p.Consumes := by
  intro c a c' hc
  have hmatch := hpq c c rfl (by rw [hc]; nofun)
  rw [hc] at hmatch
  exact hq hmatch.eq.symm

theorem Part.consumes_within (x : Part) (bound : Nat) : (x.within bound).Consumes :=
  (x.follows_rule bound).consumes (Rule.consumes_of_spends x.spends_rule)

/-- A comma with an element of a list after it. -/
theorem consumes_comma {p : Rule α} (hp : p.Consumes) : (do symbol ","; p : Rule α).Consumes := by
  intro c a c' hc
  rw [Rule.bind_run] at hc
  split at hc
  next _ c₁ hcomma =>
    have hfirst := Rule.consumes_of_spends (fun n => spends_symbol n (s := ",") (by decide)) hcomma
    exact (hp hc).trans hfirst
  all_goals cases hc

/-- A step of the machine that is followed by another one reads something. -/
theorem Chain.length_lt_of_step (bound : Nat) {s s' : State}
    (h : step (operand (expressionAt bound) bound) s = .more s') :
    s'.cursor.rest.length < s.cursor.rest.length := by
  have hmatch := matches_step (d := s.cursor) expressionTokens_eq
    (Part.operand.follows_rule bound) rfl (show step (operand (expressionAt bound) bound) s ≠ _ by
      rw [h]; nofun)
  have hspends := spends_step (Part.operand.spends_rule _) (Nat.le_refl s.cursor.rest.length)
  rw [show step (Part.operand.within bound) s = .more s' from h] at hmatch
  generalize step Part.operand.rule s = next at hmatch hspends
  cases hmatch with
  | more _ hcursor => exact hcursor ▸ hspends.2

/-! ### Tries -/

/-- A part of the grammar that is tried at a position. -/
structure Try where
  /-- the part -/
  part : Part
  /-- the position -/
  cursor : Cursor
  deriving DecidableEq

/-- The part as the reader has it, but for the tries that satisfy `S`: those stop the reading. -/
def Part.except (S : Try → Prop) [DecidablePred S] (x : Part) : Rule Node := fun c =>
  if S ⟨x, c⟩ then .halt .exhausted else x.rule c

namespace Try

/-- The try `t`, with other rules in the place of the parts that are tried inside it. -/
def run (t : Try) (sub : Part → Rule Node) : Parsed Node :=
  t.part.body sub (t.cursor.rest.length + 1) t.cursor

/-- What comes of the try `t` depends on the try `u` as one of those inside it: `t` is stopped if `u`
is. -/
def LeadsTo (t u : Try) : Prop :=
  t.run (Part.except (· = u)) = .halt .exhausted

/-- How much text a try has in front of it, and then how loose its part is. -/
def measure (t : Try) : Nat ×ₗ Nat :=
  toLex (t.cursor.rest.length, t.part.rank)

theorem measure_lt_iff {t u : Try} :
    u.measure < t.measure ↔
      u.cursor.rest.length < t.cursor.rest.length ∨
        u.cursor.rest.length = t.cursor.rest.length ∧ u.part.rank < t.part.rank :=
  Prod.Lex.toLex_lt_toLex

section Except

variable {t u : Try} {S : Try → Prop} [DecidablePred S]

theorem spends_except {x : Part} {n : Nat} (h : ∀ c : Cursor, c.rest.length ≤ n → ¬S ⟨x, c⟩) :
    (x.except S).Spends n 1 := by
  intro c hc
  rw [Part.except, if_neg (h c hc)]
  exact x.spends_rule n c hc

/-- A try is not stopped by tries that do not measure less. -/
theorem run_except_ne_exhausted (h : ∀ u, u.measure < t.measure → ¬S u) :
    t.run (Part.except S) ≠ .halt .exhausted := by
  have hless (m : Nat) (hm : m < t.cursor.rest.length) (y : Part) : (y.except S).Spends m 1 :=
    spends_except fun c hc => h _ (measure_lt_iff.mpr (.inl (Nat.lt_of_le_of_lt hc hm)))
  have htighter (y : Part) (hy : y.rank < t.part.rank) :
      (y.except S).Spends t.cursor.rest.length 1 :=
    spends_except fun c hc => h _ (measure_lt_iff.mpr ((Nat.lt_or_eq_of_le hc).imp_right (⟨·, hy⟩)))
  exact (Part.spends_body hless htighter (Nat.le_succ _)).ne_exhausted _ (Nat.le_refl _)

/-- If a try is not stopped by those that satisfy `S`, what stands in their place is of no account. -/
theorem run_eq_rule (hrun : t.run (Part.except S) ≠ .halt .exhausted) {sub : Part → Rule Node}
    (h : ∀ u, ¬S u → sub u.part u.cursor = u.part.rule u.cursor) :
    t.run sub = t.part.rule t.cursor := by
  -- rules that agree off `S` do what the parts with `S` ruled out do, unless they are stopped
  have hfollows {sub : Part → Rule Node} (h : ∀ u, ¬S u → sub u.part u.cursor = u.part.rule u.cursor) :
      t.run (Part.except S) = t.run sub := by
    refine (Part.follows_body (fun x => ?_) (Nat.le_refl _) t.part _ _ rfl hrun).eq
    rintro c _ rfl hx
    rw [Part.except] at hx ⊢
    split at hx
    next => exact absurd rfl hx
    next hS =>
      rw [if_neg hS, ← h ⟨x, c⟩ hS]
      exact .refl _
  calc t.run sub
      = t.run (Part.except S) := (hfollows h).symm
    _ = t.run Part.rule := hfollows fun _ _ => rfl
    _ = t.part.rule t.cursor := (t.part.rule_eq_body (Nat.lt_succ_self _)).symm

end Except

theorem LeadsTo.measure_lt {t u : Try} (h : t.LeadsTo u) : u.measure < t.measure := by
  by_contra hnot
  refine run_except_ne_exhausted (fun v hv => ?_) h
  rintro rfl
  exact hnot hv

theorem measure_lt_of_transGen {t u : Try} (h : Relation.TransGen LeadsTo t u) :
    u.measure < t.measure := by
  induction h with
  | single h => exact h.measure_lt
  | tail _ h ih => exact h.measure_lt.trans ih

/-- Rules that are built of each other as the grammar says are the parts as the reader has them. -/
theorem eq_rule_of_run {sub : Part → Rule Node} (h : ∀ t : Try, sub t.part t.cursor = t.run sub)
    (t : Try) : sub t.part t.cursor = t.part.rule t.cursor := by
  induction t using (InvImage.wf measure wellFounded_lt).induction with
  | _ t ih =>
    rw [h]
    classical
    have hrun : t.run (Part.except fun u => ¬u.measure < t.measure) ≠ .halt .exhausted :=
      run_except_ne_exhausted fun u hu => not_not_intro hu
    exact run_eq_rule hrun fun u hu => ih u (not_not.mp hu)

theorem run_iff {sub : Part → Rule Node} :
    (∀ t : Try, sub t.part t.cursor = t.run sub) ↔ sub = Part.rule := by
  refine ⟨fun h => ?_, ?_⟩
  · funext x c
    exact eq_rule_of_run h ⟨x, c⟩
  · rintro rfl t
    exact t.part.rule_eq_body (Nat.lt_succ_self _)

/-- An operand leads to the expression that is its argument, which in turn leads to an operand. -/
example :
    LeadsTo ⟨.operand, .start "print(1)".toList⟩ ⟨.expression, ⟨some '(', "1)".toList⟩⟩ ∧
      LeadsTo ⟨.expression, ⟨some '(', "1)".toList⟩⟩ ⟨.operand, ⟨some '(', "1)".toList⟩⟩ :=
  ⟨rfl, rfl⟩

end Try

/-! ### Texts -/

/-- A digit too many in a text with its tabs replaced is one in the text itself. -/
theorem HasLongInteger.of_expandTabs {cs : List Char} (h : HasLongInteger (Text.expandTabs cs)) :
    HasLongInteger cs := by
  obtain ⟨ds, hds, hdigits, hlength⟩ := h
  have hblank : ' ' ∉ ds := fun hmem => absurd (hdigits ' ' hmem) (by decide)
  exact ⟨ds, Written.infix_of_infix_expandTabsFrom hblank hds, hdigits, hlength⟩

/-- How the reading of a text may end: with a tree, with a report, or with the failure of the host at an
integer that is too long. -/
def IsOutcome (cs : List Char) : Except Problem α → Prop
  | .ok _ => True
  | .error (.parse _) => True
  | .error (.failure failure) => failure = .fault .tooManyDigits ∧ HasLongInteger cs

theorem isOutcome_parseWith {read : List Char → Except Rejection α}
    (hread : ∀ {cs reason}, read cs = .error (.halted reason) → reason.Blames cs)
    (source filename : String) : IsOutcome source.toList (parseWith read source filename) := by
  rw [parseWith]
  split
  next => trivial
  next rejection hrejection =>
    cases rejection with
    | misread what rest => trivial
    | halted reason =>
      obtain ⟨rfl, hlong⟩ := hread hrejection
      exact ⟨rfl, hlong.of_expandTabs⟩

/-- Reading ends, whatever the text. Statements and expressions read something wherever they match, and
so does all that is repeated: what follows a comma in a list, and a step of the machine for expressions.
The rules of the reader are built of each other as the grammar says, and no others are. What a part
depends on is tried where less text is left, or the same text for a tighter part. -/
theorem reading_ends :
    (∀ bound, (statementAt bound).Consumes ∧ (expressionAt bound).Consumes) ∧
    (∀ bound, (do symbol ","; expressionAt bound : Rule Node).Consumes) ∧
    (do symbol ","; identifier : Rule String).Consumes ∧
    (∀ bound s s', Chain.step (operand (expressionAt bound) bound) s = .more s' →
      s'.cursor.rest.length < s.cursor.rest.length) ∧
    (∀ (x : Part) (c : Cursor) (bound : Nat), c.rest.length < bound → x.within bound c = x.rule c) ∧
    (∀ sub : Part → Rule Node, (∀ t : Try, sub t.part t.cursor = t.run sub) ↔ sub = Part.rule) ∧
    (∀ t u : Try, Relation.TransGen Try.LeadsTo t u →
      u.cursor.rest.length < t.cursor.rest.length ∨
        u.cursor.rest.length = t.cursor.rest.length ∧ u.part.rank < t.part.rank) ∧
    ∀ source filename : String,
      IsOutcome source.toList (parseProgram source filename) ∧
        IsOutcome source.toList (parseExpression source filename) := by
  refine ⟨?progress, ?elements, ?names, ?steps, ?bounds, ?grammar, ?descent, ?outcomes⟩
  case progress =>
    exact fun bound => ⟨Part.statement.consumes_within bound, Part.expression.consumes_within bound⟩
  case elements => exact fun bound => consumes_comma (Part.expression.consumes_within bound)
  case names => exact consumes_comma (Rule.consumes_of_spends spends_identifier)
  case steps => exact fun bound s s' => Chain.length_lt_of_step bound
  case bounds => exact fun x c bound hbound => x.within_eq_rule hbound
  case grammar => exact fun sub => Try.run_iff
  case descent => exact fun t u h => Try.measure_lt_iff.mp (Try.measure_lt_of_transGen h)
  case outcomes =>
    exact fun source filename => ⟨isOutcome_parseWith blames_of_readStatements source filename,
      isOutcome_parseWith blames_of_readExpression source filename⟩

end Kestrel.Reader
