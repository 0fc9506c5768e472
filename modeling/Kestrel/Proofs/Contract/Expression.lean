import Kestrel.Proofs.Contract.Basic
import Kestrel.Proofs.Lockstep.Expression

/-!
# What is ensured of expressions

A property of trees that is passed on from the parts to the whole holds of every expression, given what
the tokens ensure. Names are where it may depend on the position: a token may leave a position from which
less can be said of the next name, but the machine for expressions asks for an operand only at its start
and behind signs.

* `PassedOn` — properties passed on from the parts of an expression to the whole;
* `TokensEnsure` — what tokens ensure;
* `Chain.known_step`, `Chain.known_run` — the machine;
* `ensures_operand`, `ensures_expressionAt` — operands and expressions.
-/

namespace Kestrel.Reader

variable {α : Type}

/-- An expression has the property if its parts have it, and its name is admissible. -/
structure PassedOn (name : String → Prop) (P : Node → Prop) : Prop where
  int (n : Int) : P (.int n)
  str (s : String) : P (.str s)
  bool (b : Bool) : P (.bool b)
  none : P .none
  template (s : String) : P (.template s)
  var {x : String} (hx : name x) : P (.var x)
  binary {l r : Node} (op : BinaryOp) (hl : P l) (hr : P r) : P (.binary op l r)
  unary {e : Node} (op : UnaryOp) (he : P e) : P (.unary op e)
  choice {c t f : Node} (hc : P c) (ht : P t) (hf : P f) : P (.choice c t f)
  call {x : String} {args : List Node} (hx : name x) (hargs : ∀ e ∈ args, P e) : P (.call x args)
  print {e : Node} (he : P e) : P (.print e)
  read {e : Node} (he : P e) : P (.read e)
  split {s d : Node} (hs : P s) (hd : P d) : P (.split s d)

/-- What tokens ensure. All but integers leave a clear position, and at a position that satisfies `pre`
names are admissible. -/
structure TokensEnsure (E : Evidence) (clear pre : Cursor → Prop) (name : String → Prop) : Prop where
  of_clear (c : Cursor) (h : clear c) : pre c
  keyword (k : Keyword) : Rule.Ensures E anywhere (keyword k) (fun _ => True) clear
  identifier : Rule.Ensures E pre identifier name clear
  sign {s : String} (hs : s ∈ expressionSigns) :
    Rule.Ensures E anywhere (symbol s) (fun _ => True) clear
  unaryOp : Rule.Ensures E anywhere unaryOp (fun _ => True) clear
  binaryOp : Rule.Ensures E anywhere binaryOp (fun _ => True) clear
  integer : Rule.Ensures E anywhere integer (fun _ => True) anywhere
  string : Rule.Ensures E anywhere string (fun _ => True) clear

/-- Nothing is asked of tokens. -/
theorem TokensEnsure.plain : TokensEnsure .plain anywhere anywhere fun _ => True := by
  have htoken {α : Type} (p : Rule α) :
      Rule.Ensures .plain anywhere p (fun _ => True) anywhere :=
    fun _ _ _ _ _ hc => ⟨hc.1, True.intro, True.intro⟩
  exact ⟨fun _ => id, fun _ => htoken _, htoken _, fun _ => htoken _, htoken _, htoken _, htoken _,
    htoken _⟩

variable {E : Evidence} {clear pre : Cursor → Prop} {name : String → Prop} {P : Node → Prop}

theorem TokensEnsure.commaList (h : TokensEnsure E clear pre name) {p : Rule α} {Q : α → Prop}
    (hp : Rule.Ensures E pre p Q anywhere) (bound : Nat) :
    Rule.Ensures E pre (commaList p bound) (fun as => ∀ a ∈ as, Q a) anywhere := by
  have htail : Rule.Ensures E anywhere (commaTail p bound) (fun as => ∀ a ∈ as, Q a) anywhere := by
    refine .many (.bind (h.sign (s := ",") (by decide)) fun _ => ?_) bound
    exact hp.imp h.of_clear (fun _ ha _ => ha) fun _ => id
  refine .orElse (.bind hp fun a => .bind htail fun as => .pure ?_) ?_
  · exact fun has ha => List.forall_mem_cons.mpr ⟨ha, has⟩
  · exact (Rule.Ensures.pure nofun).to_anywhere

/-! ### The machine -/

/-- What waits for an operand has the property. -/
def Pending.All (P : Node → Prop) : Pending → Prop
  | unary _ | paren => True
  | binary _ e | condition e => P e
  | otherwise c t => P c ∧ P t

theorem all_settle (hP : PassedOn name P) (level : Nat) {stack : List Pending} {e : Node}
    (hstack : ∀ p ∈ stack, p.All P) (he : P e) :
    (∀ p ∈ (settle level stack e).1, p.All P) ∧ P (settle level stack e).2 := by
  induction stack generalizing e with
  | nil => exact ⟨hstack, he⟩
  | cons p stack ih =>
    obtain ⟨hp, hrest⟩ := List.forall_mem_cons.mp hstack
    -- a pending part is either completed, and then the rest of the stack goes on, or left
    cases p with
    | unary op =>
      rw [settle]
      split
      · exact ih hrest (hP.unary op he)
      · exact ⟨hstack, he⟩
    | binary op l =>
      rw [settle]
      split
      · exact ih hrest (hP.binary op hp he)
      · exact ⟨hstack, he⟩
    | otherwise c t =>
      rw [settle]
      split
      · exact ih hrest (hP.choice hp.1 hp.2 he)
      · exact ⟨hstack, he⟩
    | condition c => exact ⟨hstack, he⟩
    | paren => exact ⟨hstack, he⟩

namespace Chain

/-- What waits, and the operand that was read last, has the property. -/
structure State.All (P : Node → Prop) (s : State) : Prop where
  /-- what waits -/
  stack : ∀ p ∈ s.stack, p.All P
  /-- the operand -/
  current : ∀ e, s.current = some e → P e

/-- Known of a state between two steps: all parts have the property, and where an operand is still to come,
the position satisfies `pre`. -/
def State.Known (E : Evidence) (pre : Cursor → Prop) (P : Node → Prop) (A : Prop) (s : State) : Prop :=
  E.Known s.cursor (A ∧ s.All P ∧ (s.current = none → pre s.cursor))

/-- Known of what a step leads to. -/
def Next.Known (E : Evidence) (pre : Cursor → Prop) (P : Node → Prop) (A : Prop) : Next → Prop
  | .more s => s.Known E pre P A
  | .done e c => E.Known c (A ∧ P e)
  | .failed _ _ | .halt _ => True

variable {A : Prop} {s : State} {e : Node}

/-- Behind a token that has been read, what was known of the state is known, too. -/
theorem State.Known.token {p : Rule α} {a : α} {c : Cursor} (hs : s.Known E pre P A)
    (hp : Rule.Ensures E anywhere p (fun _ => True) clear) (ha : p s.cursor = .ok a c) :
    E.Known c (A ∧ s.All P ∧ clear c) := by
  have hstart : E.Known s.cursor ((A ∧ s.All P) ∧ anywhere s.cursor) :=
    E.imp (fun h => ⟨⟨h.1, h.2.1⟩, True.intro⟩) hs
  exact E.imp (fun h => ⟨h.1.1, h.1.2, h.2.2⟩) (hp _ ha hstart)

theorem known_stepOperand (htokens : TokensEnsure E clear pre name) {operand : Rule Node}
    (hoperand : Rule.Ensures E pre operand P anywhere) (hs : s.Known E pre P A)
    (hcurrent : s.current = none) : (stepOperand operand s).Known E pre P A := by
  rw [stepOperand]
  split
  next op c hop =>
    refine E.imp ?_ (hs.token htokens.unaryOp hop)
    rintro ⟨hA, hall, hclear⟩
    exact ⟨hA, ⟨List.forall_mem_cons.mpr ⟨True.intro, hall.stack⟩, hall.current⟩,
      fun _ => htokens.of_clear c hclear⟩
  next =>
    split
    next e c he =>
      have hstart : E.Known s.cursor ((A ∧ s.All P) ∧ pre s.cursor) :=
        E.imp (fun h => ⟨⟨h.1, h.2.1⟩, h.2.2 hcurrent⟩) hs
      refine E.imp ?_ (hoperand _ he hstart)
      rintro ⟨⟨hA, hall⟩, he', -⟩
      refine ⟨hA, ⟨hall.stack, ?_⟩, fun h => absurd h (Option.some_ne_none e)⟩
      rintro _ ⟨⟩
      exact he'
    next => exact True.intro
    next =>
      split
      next c hopen =>
        refine E.imp ?_ (hs.token (htokens.sign (by decide)) hopen)
        rintro ⟨hA, hall, hclear⟩
        exact ⟨hA, ⟨List.forall_mem_cons.mpr ⟨True.intro, hall.stack⟩, hall.current⟩,
          fun _ => htokens.of_clear c hclear⟩
      next => exact True.intro

theorem known_finish (hP : PassedOn name P) (hs : s.Known E pre P A) (he : s.current = some e) :
    (finish s e).Known E pre P A := by
  rw [finish]
  split
  next e' heq =>
    refine E.imp ?_ hs
    rintro ⟨hA, hall, -⟩
    refine ⟨hA, ?_⟩
    have hsettle := all_settle hP 0 hall.stack (hall.current e he)
    rw [heq] at hsettle
    exact hsettle.2
  next => exact True.intro

theorem all_close (hP : PassedOn name P) (hall : s.All P) (he : P e) (c : Cursor) :
    (close s e c).All P := by
  have hsettle := all_settle hP 0 hall.stack he
  rw [close]
  split
  next stack e' heq =>
    rw [heq] at hsettle
    refine ⟨fun p hp => hsettle.1 p (List.mem_cons_of_mem _ hp), ?_⟩
    rintro _ ⟨⟩
    exact hsettle.2
  next stack e' _ heq =>
    rw [heq] at hsettle
    refine ⟨hsettle.1, ?_⟩
    rintro _ ⟨⟩
    exact hsettle.2

theorem known_close (hP : PassedOn name P) (he : s.current = some e) {c : Cursor}
    (h : E.Known c (A ∧ s.All P ∧ clear c)) : (close s e c).Known E pre P A := by
  have hcursor : (close s e c).cursor = c := by
    rw [close]
    split <;> rfl
  have hcurrent : (close s e c).current ≠ none := by
    rw [close]
    split <;> exact Option.some_ne_none _
  rw [State.Known, hcursor]
  refine E.imp ?_ h
  rintro ⟨hA, hall, -⟩
  exact ⟨hA, all_close hP hall (hall.current e he) c, fun h => absurd h hcurrent⟩

/-- Behind an operator an operand is to come. -/
theorem known_operator (htokens : TokensEnsure E clear pre name) {stack : List Pending} {n : Nat}
    {c : Cursor} (h : E.Known c (A ∧ s.All P ∧ clear c))
    (hstack : s.All P → ∀ p ∈ stack, p.All P) : (State.mk stack n none c).Known E pre P A :=
  E.imp (fun ⟨hA, hall, hclear⟩ => ⟨hA, ⟨hstack hall, nofun⟩, fun _ => htokens.of_clear c hclear⟩) h

theorem known_stepInfix (htokens : TokensEnsure E clear pre name) (hP : PassedOn name P)
    (hs : s.Known E pre P A) (he : s.current = some e) : (stepInfix s e).Known E pre P A := by
  rw [stepInfix]
  split
  next op c hop =>
    refine known_operator htokens (hs.token htokens.binaryOp hop) fun hall => ?_
    have hsettle := all_settle hP (op.level - 1) hall.stack (hall.current e he)
    exact List.forall_mem_cons.mpr ⟨hsettle.2, hsettle.1⟩
  next =>
    split
    next c hquestion =>
      refine known_operator htokens (hs.token (htokens.sign (by decide)) hquestion) fun hall => ?_
      have hsettle := all_settle hP choiceLevel hall.stack (hall.current e he)
      exact List.forall_mem_cons.mpr ⟨hsettle.2, hsettle.1⟩
    next => exact known_finish hP hs he

theorem known_stepOperator (htokens : TokensEnsure E clear pre name) (hP : PassedOn name P)
    (hs : s.Known E pre P A) (he : s.current = some e) : (stepOperator s e).Known E pre P A := by
  rw [stepOperator_eq]
  split
  next c hclose =>
    split at hclose
    · cases hclose
    · exact known_close hP he (hs.token (htokens.sign (by decide)) hclose)
  next =>
    split
    next c cond stack e' hcolon heq =>
      refine known_operator htokens (hs.token (htokens.sign (by decide)) hcolon) fun hall => ?_
      have hsettle := all_settle hP 0 hall.stack (hall.current e he)
      rw [heq] at hsettle
      obtain ⟨hcond, hstack⟩ := List.forall_mem_cons.mp hsettle.1
      exact List.forall_mem_cons.mpr ⟨⟨hcond, hsettle.2⟩, hstack⟩
    next => exact known_stepInfix htokens hP hs he

theorem known_step (htokens : TokensEnsure E clear pre name) (hP : PassedOn name P)
    {operand : Rule Node} (hoperand : Rule.Ensures E pre operand P anywhere)
    (hs : s.Known E pre P A) : (step operand s).Known E pre P A := by
  rw [step]
  split
  next hcurrent => exact known_stepOperand htokens hoperand hs hcurrent
  next e he => exact known_stepOperator htokens hP hs he

/-- What is known of a state is known of whatever the machine makes of it. -/
theorem known_run (htokens : TokensEnsure E clear pre name) (hP : PassedOn name P)
    {operand : Rule Node} (hoperand : Rule.Ensures E pre operand P anywhere) (bound : Nat)
    (hs : s.Known E pre P A) : (run operand bound s).Known E pre P A := by
  induction bound generalizing s with
  | zero => exact True.intro
  | succ bound ih =>
    have hstep := known_step htokens hP hoperand hs
    rw [run]
    split
    next s' heq =>
      rw [heq] at hstep
      exact ih hstep
    next => exact hstep

end Chain

/-! ### Operands and expressions -/

theorem PassedOn.stringNode (hP : PassedOn name P) (cs : List Char) : P (stringNode cs) := by
  rw [Reader.stringNode]
  split
  · exact hP.template _
  · exact hP.str _

section

variable (htokens : TokensEnsure E clear pre name)
include htokens

theorem TokensEnsure.keyword_from (k : Keyword) {pre' : Cursor → Prop} :
    Rule.Ensures E pre' (Reader.keyword k) (fun _ => True) clear :=
  (htokens.keyword k).from_anywhere

theorem TokensEnsure.sign_from {s : String} (hs : s ∈ expressionSigns) {pre' : Cursor → Prop} :
    Rule.Ensures E pre' (symbol s) (fun _ => True) clear :=
  (htokens.sign hs).from_anywhere

theorem ensures_operand (hP : PassedOn name P) {expression : Rule Node}
    (h : Rule.Ensures E pre expression P anywhere) (bound : Nat) :
    Rule.Ensures E pre (operand expression bound) P anywhere := by
  have hinside : Rule.Ensures E clear expression P anywhere := h.strengthen htokens.of_clear
  have hkeyword (k : Keyword) {e : Node} (he : P e) :
      Rule.Ensures E pre (do keyword k; pure e) P anywhere :=
    (Rule.Ensures.bind (htokens.keyword_from k) fun _ => .pure fun _ => he).to_anywhere
  refine .oneOf fun p hp => ?_
  rw [operandForms] at hp
  simp only [List.mem_cons, List.not_mem_nil, or_false] at hp
  -- the literals, then the built-in functions, calls and names
  rcases hp with rfl | rfl | rfl | rfl | rfl | rfl | rfl | rfl | rfl | rfl
  · exact .bind htokens.integer.from_anywhere fun n => .pure fun _ => hP.int n
  · exact .bind htokens.string.from_anywhere.to_anywhere fun s => .pure fun _ => hP.stringNode s
  · exact hkeyword .true (hP.bool true)
  · exact hkeyword .false (hP.bool false)
  · exact hkeyword .none hP.none
  · refine .bind (htokens.keyword_from _) fun _ => .bind (htokens.sign_from (by decide)) fun _ => ?_
    refine .bind hinside fun e => .bind (htokens.sign_from (by decide)).to_anywhere fun _ => ?_
    exact .pure fun _ he _ _ => hP.print he
  · refine .bind (htokens.keyword_from _) fun _ => .bind (htokens.sign_from (by decide)) fun _ => ?_
    refine .bind hinside fun e => .bind (htokens.sign_from (by decide)).to_anywhere fun _ => ?_
    exact .pure fun _ he _ _ => hP.read he
  · refine .bind (htokens.keyword_from _) fun _ => .bind (htokens.sign_from (by decide)) fun _ => ?_
    refine .bind hinside fun s => .bind (htokens.sign_from (by decide)) fun _ => ?_
    refine .bind hinside fun d => .bind (htokens.sign_from (by decide)).to_anywhere fun _ => ?_
    exact .pure fun _ hd _ hs _ _ => hP.split hs hd
  · refine .bind htokens.identifier fun x => .bind (htokens.sign_from (by decide)) fun _ => ?_
    refine .bind ((htokens.commaList h bound).strengthen htokens.of_clear) fun args => ?_
    refine .bind (htokens.sign_from (by decide)).to_anywhere fun _ => ?_
    exact .pure fun _ hargs _ hx => hP.call hx hargs
  · exact .bind htokens.identifier.to_anywhere fun x => .pure fun hx => hP.var hx

/-- An expression has every property that is passed on from its parts. -/
theorem ensures_expressionAt (hP : PassedOn name P) (bound : Nat) :
    Rule.Ensures E pre (expressionAt bound) P anywhere := by
  induction bound with
  | zero => exact nofun
  | succ bound ih =>
    intro c e c' A he hc
    have hstart : (Chain.start c).Known E pre P A :=
      E.imp (fun ⟨hA, hpre⟩ => ⟨hA, ⟨nofun, nofun⟩, fun _ => hpre⟩) hc
    have hchain := Chain.known_run htokens hP (ensures_operand htokens hP ih bound) (bound + 1) hstart
    rw [expressionAt, chainAt_succ, Chain.Next.toParsed.eq_def] at he
    split at he
    next heq =>
      cases he
      rw [heq] at hchain
      exact E.imp (fun h => ⟨h.1, h.2, True.intro⟩) hchain
    all_goals cases he

end

end Kestrel.Reader
