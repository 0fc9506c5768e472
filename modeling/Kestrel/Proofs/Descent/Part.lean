import Kestrel.Proofs.Lockstep.Progress

/-!
# The parts of the grammar

The rules of the grammar are applied inside each other. Here they are taken apart: each is given as a
body in which the parts it applies are left open, and the rules of the reader are the ones that fill
these in. With the bounds out of reach no bound is left in this: the parts are determined by their
bodies.

* `Part`, `Part.body` — the parts, and how each is built of others;
* `Part.within`, `Part.rule` — the rules of the reader, with a bound and without one;
* `Part.spends_body` — a body reads something if the parts inside it do;
* `Part.rule_eq_body` — the rules of the reader are the bodies with these rules inside.
-/

namespace Kestrel.Reader

variable {R : Cursor → Cursor → Prop}

/-- The rules that are applied inside each other. -/
inductive Part where
  /-- a statement of any kind -/
  | statement
  /-- a function -/
  | declaration
  /-- a loop -/
  | loop
  /-- a condition with its branches -/
  | conditional
  /-- statements between braces -/
  | block
  /-- an assignment or an expression -/
  | simple
  /-- operands with operators around them -/
  | expression
  /-- what stands without operators -/
  | operand
  deriving DecidableEq, Repr

namespace Part

/-- How loose a part is: a part may start with another one only if that one is tighter. -/
def rank : Part → Nat
  | statement => 3
  | declaration | loop | conditional | block | simple => 2
  | expression => 1
  | operand => 0

/-- A part, given the parts that are applied inside it. Repetitions count down from the bound. -/
def body (sub : Part → Rule Node) (bound : Nat) : Part → Rule Node
  | statement =>
    Rule.oneOf [sub declaration, sub loop, sub conditional, sub block, sub simple]
  | declaration => Reader.declaration (sub block) bound
  | loop => Reader.loop (sub expression) (sub block)
  | conditional => conditionalWith (sub expression) (sub block) (sub conditional)
  | block => Reader.block (sub statement) bound
  | simple => Reader.simple (sub expression)
  | expression => fun c => (Chain.run (sub operand) (bound + 1) (Chain.start c)).toParsed
  | operand => Reader.operand (sub expression) bound

/-- The part as the reader has it, with a bound on nesting and repetition. -/
def within (bound : Nat) : Part → Rule Node
  | statement => statementAt bound
  | declaration => Reader.declaration (Reader.block (statementAt bound) bound) bound
  | loop => Reader.loop (expressionAt bound) (Reader.block (statementAt bound) bound)
  | conditional =>
    Reader.conditional (expressionAt bound) (Reader.block (statementAt bound) bound) bound
  | block => Reader.block (statementAt bound) bound
  | simple => Reader.simple (expressionAt bound)
  | expression => expressionAt bound
  | operand => Reader.operand (expressionAt bound) bound

/-- The part as the reader has it, with a bound that the text does not reach. -/
def rule (x : Part) : Rule Node := fun c => x.within (c.rest.length + 1) c

/-! ### Parts read something -/

theorem spends_statementAt_block {n bound : Nat} (hbound : n < bound) :
    (Reader.block (statementAt bound) bound).Spends n 1 :=
  spends_block (fun _ hm => spends_statementAt (by omega)) (by omega)

theorem spends_within {n bound : Nat} (hbound : n < bound) (x : Part) :
    (x.within bound).Spends n 1 := by
  have hexpression (m : Nat) (hm : m ≤ n) : (expressionAt bound).Spends m 1 :=
    spends_expressionAt (by omega)
  have hblock (m : Nat) (hm : m ≤ n) : (Reader.block (statementAt bound) bound).Spends m 1 :=
    spends_statementAt_block (by omega)
  cases x with
  | statement => exact spends_statementAt hbound
  | declaration => exact spends_declaration (fun m hm => hblock m (by omega)) (by omega)
  | loop =>
    exact spends_loop (fun m hm => hexpression m (by omega)) fun m hm => hblock m (by omega)
  | conditional =>
    exact spends_conditional (fun m hm => hexpression m (by omega))
      (fun m hm => hblock m (by omega)) hbound
  | block => exact hblock n (Nat.le_refl n)
  | simple => exact spends_simple hexpression
  | expression => exact hexpression n (Nat.le_refl n)
  | operand => exact spends_operand (fun m hm => hexpression m (by omega)) (by omega)

theorem spends_rule (x : Part) (n : Nat) : x.rule.Spends n 1 :=
  fun c _ => x.spends_within (Nat.lt_succ_self c.rest.length) c (Nat.le_refl _)

/-- A body reads something if the parts do so that it applies: all parts where some of the text has been
read, and at its start those that are tighter. -/
theorem spends_body {sub : Part → Rule Node} {n bound : Nat} {x : Part}
    (hless : ∀ m < n, ∀ y, (sub y).Spends m 1) (htighter : ∀ y, y.rank < x.rank → (sub y).Spends n 1)
    (hbound : n ≤ bound) : (x.body sub bound).Spends n 1 := by
  cases x with
  | statement =>
    refine .oneOf fun p hp => ?_
    simp only [List.mem_cons, List.not_mem_nil, or_false] at hp
    rcases hp with rfl | rfl | rfl | rfl | rfl <;> exact htighter _ (by decide)
  | declaration => exact spends_declaration (fun m hm => hless m hm block) hbound
  | loop =>
    exact spends_loop (fun m hm => hless m hm expression) fun m hm => hless m hm block
  | conditional =>
    exact spends_conditionalWith (fun m hm => hless m hm expression) (fun m hm => hless m hm block)
      fun m hm => hless m hm conditional
  | block => exact spends_block (fun m hm => hless m hm statement) hbound
  | simple =>
    refine spends_simple fun m hm => ?_
    exact (htighter expression (by decide)).of_le hm
  | expression =>
    intro c hc
    have hrun := Chain.spends_run (htighter operand (by decide)) (s := Chain.start c) hc
      (show c.rest.length < bound + 1 by omega)
    exact hrun.toParsed
  | operand => exact spends_operand (fun m hm => hless m hm expression) hbound

/-! ### Parts as they are applied inside each other -/

theorem follows_body {sub sub' : Part → Rule Node} (h : ∀ y, Follows Eq (sub y) (sub' y)) {n m : Nat}
    (hnm : n ≤ m) (x : Part) : Follows Eq (x.body sub n) (x.body sub' m) := by
  cases x with
  | statement =>
    exact .oneOf (.cons (h _) (.cons (h _) (.cons (h _) (.cons (h _) (.cons (h _) .nil)))))
  | declaration => exact follows_declaration programTokens_eq (h block) hnm
  | loop => exact follows_loop programTokens_eq (h expression) (h block)
  | conditional =>
    exact follows_conditionalWith programTokens_eq (h expression) (h block) (h conditional)
  | block => exact follows_block programTokens_eq (h statement) hnm
  | simple => exact follows_simple programTokens_eq (h expression)
  | expression =>
    exact Chain.follows_run expressionTokens_eq (h operand) (Nat.succ_le_succ hnm)
  | operand => exact follows_operand expressionTokens_eq (h expression) hnm

theorem follows_within {n m : Nat} (hnm : n ≤ m) (x : Part) :
    Follows Eq (x.within n) (x.within m) := by
  have hexpression := follows_expressionAt expressionTokens_eq hnm
  have hstatement := follows_statementAt programTokens_eq hnm
  have hblock := follows_block programTokens_eq hstatement hnm
  cases x with
  | statement => exact hstatement
  | declaration => exact follows_declaration programTokens_eq hblock hnm
  | loop => exact follows_loop programTokens_eq hexpression hblock
  | conditional => exact follows_conditional programTokens_eq hexpression hblock hnm
  | block => exact hblock
  | simple => exact follows_simple programTokens_eq hexpression
  | expression => exact hexpression
  | operand => exact follows_operand expressionTokens_eq hexpression hnm

/-- With one bound for all parts inside, a body is the part with a higher one. -/
theorem follows_body_within (n : Nat) (x : Part) :
    Follows Eq (x.body (within n) n) (x.within (n + 1)) := by
  have hle : n ≤ n + 1 := Nat.le_succ n
  have hexpression := follows_expressionAt expressionTokens_eq hle
  have hstatement := follows_statementAt programTokens_eq hle
  have hblock := follows_block programTokens_eq hstatement hle
  -- inside a statement blocks are read with the lower bound
  have hinner :=
    follows_block programTokens_eq (follows_statementAt programTokens_eq (Nat.le_refl n)) hle
  cases x with
  | statement =>
    exact .oneOf (.cons (follows_declaration programTokens_eq hinner hle)
      (.cons (follows_loop programTokens_eq hexpression hinner)
      (.cons (follows_conditional programTokens_eq hexpression hinner hle)
      (.cons hinner
      (.cons (follows_simple programTokens_eq hexpression) .nil)))))
  | declaration => exact follows_declaration programTokens_eq hblock hle
  | loop => exact follows_loop programTokens_eq hexpression hblock
  | conditional =>
    exact follows_conditionalWith programTokens_eq hexpression hblock
      (follows_conditional programTokens_eq hexpression hblock (Nat.le_refl n))
  | block => exact follows_block programTokens_eq hstatement hle
  | simple => exact follows_simple programTokens_eq hexpression
  | expression => exact fun _ _ h _ => h ▸ .refl _
  | operand => exact follows_operand expressionTokens_eq hexpression hle

/-- What a part gives under a bound, it gives without one, unless that bound is reached. -/
theorem follows_rule (n : Nat) (x : Part) : Follows Eq (x.within n) x.rule := by
  rintro c _ rfl hrun
  rcases Nat.le_total n (c.rest.length + 1) with hle | hle
  · exact x.follows_within hle c c rfl hrun
  · have hrule : x.rule c ≠ .halt .exhausted := (x.spends_rule _).ne_exhausted c (Nat.le_refl _)
    rw [← (x.follows_within hle c c rfl hrule).eq]
    exact .refl _

theorem within_eq_rule (x : Part) {c : Cursor} {bound : Nat} (hbound : c.rest.length < bound) :
    x.within bound c = x.rule c := by
  have hrun := (x.spends_within hbound).ne_exhausted c (Nat.le_refl _)
  exact (x.follows_rule bound c c rfl hrun).eq

/-- The rules of the reader are the bodies of the parts with these rules inside, whatever the bound on
repetitions, as long as the text does not reach it. -/
theorem rule_eq_body (x : Part) {c : Cursor} {bound : Nat} (hbound : c.rest.length < bound) :
    x.rule c = x.body rule bound c := by
  have hwithin (m : Nat) (hm : m ≤ c.rest.length) (y : Part) : (y.within bound).Spends m 1 :=
    y.spends_within (by omega)
  have hbody : x.body (within bound) bound c ≠ .halt .exhausted :=
    (spends_body (fun m hm => hwithin m (by omega)) (fun y _ => hwithin _ (Nat.le_refl _) y)
      (by omega)).ne_exhausted c (Nat.le_refl _)
  have hopen := follows_body (follows_rule bound) (Nat.le_refl bound) x c c rfl hbody
  have hnext := follows_body_within bound x c c rfl hbody
  calc x.rule c
      = x.within (bound + 1) c := (x.within_eq_rule (Nat.lt_succ_of_lt hbound)).symm
    _ = x.body (within bound) bound c := hnext.eq.symm
    _ = x.body rule bound c := hopen.eq

end Part

end Kestrel.Reader
