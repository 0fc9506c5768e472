import Kestrel.Proofs.Reading.Chain
import Kestrel.Proofs.Rendering.Literal

/-!
# Expressions read back

The machine for expressions, at the tokens of an expression, ends with this expression
(`IsExpression.phrased`). What the machine keeps on its stack depends on the operators that follow, so
the invariant does not name the stack. `Arrives` says instead what the stack becomes once an operator
of a lower tier completes it: the stack before, and the whole expression as its operand.

Two things can go wrong, and the parentheses exclude both. An operator on the left can bind tighter
than the outermost one of the expression, hence `tolerated`; and one on the right can, hence the tier
in `Arrives`.
-/

namespace Kestrel.Written

open Reader Chain

/-! ### Completing what waits -/

/-- The level at which something on the stack binds its operand. -/
def pendingLevel : Pending → Nat
  | .unary _ => UnaryOp.level
  | .binary op _ => op.level
  | .otherwise _ _ => choiceLevel
  | .condition _ | .paren => 0

/-- The level at which the top of the stack binds its operand. -/
def topLevel : List Pending → Nat
  | [] => 0
  | p :: _ => pendingLevel p

/-- Nothing is completed by what binds at least as tight. -/
theorem settle_eq_self {stack : List Pending} {level : Nat} (h : topLevel stack ≤ level) (e : Node) :
    settle level stack e = (stack, e) := by
  cases stack with
  | nil => rfl
  | cons p stack =>
    cases p with
    | unary op => simp [settle, Nat.not_lt.mpr (show UnaryOp.level ≤ level from h)]
    | binary op l => simp [settle, Nat.not_lt.mpr (show op.level ≤ level from h)]
    | otherwise c t => simp [settle, Nat.not_lt.mpr (show choiceLevel ≤ level from h)]
    | condition c => rfl
    | paren => rfl

theorem settle_unary {level : Nat} (h : level < UnaryOp.level) (op : UnaryOp) (stack : List Pending)
    (e : Node) : settle level (.unary op :: stack) e = settle level stack (.unary op e) := by
  rw [settle, if_pos h]

theorem settle_binary {op : BinaryOp} {level : Nat} (h : level < op.level) (l : Node)
    (stack : List Pending) (e : Node) :
    settle level (.binary op l :: stack) e = settle level stack (.binary op l e) := by
  rw [settle, if_pos h]

theorem settle_otherwise {level : Nat} (h : level < choiceLevel) (c t : Node) (stack : List Pending)
    (e : Node) :
    settle level (.otherwise c t :: stack) e = settle level stack (.choice c t e) := by
  rw [settle, if_pos h]

/-! ### Arriving behind an expression -/

/-- At the tokens `ts`, with `us` behind them, the machine takes at most one step for each token and
then has an operand. Whatever binds looser than `least` completes the stack to the one before, with
`e` as the operand. -/
def Arrives (bound : Nat) (ts us : List Token) (e : Node) (least : Nat) (stack : List Pending) :
    Prop :=
  ∀ unclosed c, Stands c (ts ++ us) → ∃ n stack' e' c', n ≤ ts.length ∧
    Moves (operand (expressionAt bound) bound) n
      ⟨stack, unclosed, none, c⟩ ⟨stack', unclosed, some e', c'⟩ ∧
    Stands c' us ∧ ∀ level < least, settle level stack' e' = settle level stack e

section Arrives

variable {bound least : Nat} {ts us : List Token} {e : Node} {stack : List Pending}

theorem Arrives.mono {least' : Nat} (h : Arrives bound ts us e least stack) (hle : least' ≤ least) :
    Arrives bound ts us e least' stack := by
  intro unclosed c hc
  obtain ⟨n, stack', e', c', hn, hmoves, hc', hsettle⟩ := h unclosed c hc
  exact ⟨n, stack', e', c', hn, hmoves, hc', fun level hl => hsettle level (by omega)⟩

/-- An operand is read in one step. -/
theorem arrives_operand {t : Token} (hunary : t.unary? = none)
    (h : Reads (operand (expressionAt bound) bound) (t :: ts ++ us) e us) (least : Nat)
    (stack : List Pending) : Arrives bound (t :: ts) us e least stack := by
  intro unclosed c hc
  obtain ⟨c', hread, hc'⟩ := h c hc
  have hhead : ∀ u, (t :: ts ++ us).head? = some u → u.unary? = none := by
    intro u hu
    obtain rfl := Option.some.inj hu
    exact hunary
  have hstep := step_operand stack unclosed hhead hread hc
  exact ⟨1, stack, e, c', by simp, Moves.step hstep, hc', fun _ _ => rfl⟩

theorem arrives_unary {op : UnaryOp}
    (h : Arrives bound ts us e UnaryOp.level (.unary op :: stack)) :
    Arrives bound (.sign (unarySign op) :: ts) us (.unary op e) UnaryOp.level stack := by
  intro unclosed c hc
  have hop : (Token.sign (unarySign op)).unary? = some op := by cases op <;> rfl
  obtain ⟨c₁, hstep, hc₁⟩ := step_unary stack unclosed hop hc
  obtain ⟨n, stack', e', c', hn, hmoves, hc', hsettle⟩ := h unclosed c₁ hc₁
  refine ⟨1 + n, stack', e', c', ?_, (Moves.step hstep).trans hmoves, hc', fun level hl => ?_⟩
  · simp only [List.length_cons]
    omega
  · rw [hsettle level hl, settle_unary hl]

/-- The left operand is complete when the operator is read, the right one when a looser one is. -/
theorem arrives_binary {op : BinaryOp} {ls rs : List Token} {l r : Node}
    (hl : Arrives bound ls (.sign (.binary op) :: (rs ++ us)) l op.level stack)
    (hstack : topLevel stack ≤ op.level - 1)
    (hr : Arrives bound rs us r (op.level + 1) (.binary op l :: stack)) :
    Arrives bound (ls ++ .sign (.binary op) :: rs) us (.binary op l r) op.level stack := by
  intro unclosed c hc
  have hpos : 0 < op.level := by cases op <;> decide
  rw [List.append_assoc, List.cons_append] at hc
  obtain ⟨m, stack₁, e₁, c₁, hm, hmoves₁, hc₁, hsettle₁⟩ := hl unclosed c hc
  obtain ⟨c₂, hstep, hc₂⟩ := step_binary _ stack₁ unclosed e₁ hc₁
  -- the operator completes the left operand, and nothing of what waited for it
  rw [hsettle₁ _ (by omega), settle_eq_self hstack] at hstep
  obtain ⟨n, stack', e', c', hn, hmoves₂, hc', hsettle₂⟩ := hr unclosed c₂ hc₂
  refine ⟨m + 1 + n, stack', e', c', ?_, (hmoves₁.trans (Moves.step hstep)).trans hmoves₂, hc',
    fun level hlevel => ?_⟩
  · simp only [List.length_append, List.length_cons]
    omega
  · rw [hsettle₂ level (by omega), settle_binary hlevel]

/-- A choice is complete when its last part is. -/
theorem arrives_choice {cs ys ns : List Token} {cond yes no : Node}
    (hcond : Arrives bound cs (.sign .question :: (ys ++ .sign .colon :: (ns ++ us))) cond
      (choiceLevel + 1) stack)
    (hstack : topLevel stack ≤ choiceLevel)
    (hyes : Arrives bound ys (.sign .colon :: (ns ++ us)) yes choiceLevel (.condition cond :: stack))
    (hno : Arrives bound ns us no choiceLevel (.otherwise cond yes :: stack)) :
    Arrives bound (cs ++ .sign .question :: (ys ++ .sign .colon :: ns)) us (.choice cond yes no)
      choiceLevel stack := by
  intro unclosed c hc
  have hzero : 0 < choiceLevel := by decide
  simp only [List.append_assoc, List.cons_append] at hc
  obtain ⟨k, stack₁, e₁, c₁, hk, hmoves₁, hc₁, hsettle₁⟩ := hcond unclosed c hc
  obtain ⟨c₂, hquestion, hc₂⟩ := step_question _ stack₁ unclosed e₁ hc₁
  rw [hsettle₁ _ (Nat.lt_succ_self _), settle_eq_self hstack] at hquestion
  obtain ⟨m, stack₃, e₃, c₃, hm, hmoves₃, hc₃, hsettle₃⟩ := hyes unclosed c₂ hc₂
  -- the colon completes all up to the question mark
  have hwaiting : settle 0 stack₃ e₃ = (.condition cond :: stack, yes) := by
    rw [hsettle₃ 0 hzero]
    exact settle_eq_self (Nat.le_refl 0) yes
  obtain ⟨c₄, hcolon, hc₄⟩ := step_colon _ stack₃ unclosed e₃ hwaiting hc₃
  obtain ⟨n, stack', e', c', hn, hmoves₅, hc', hsettle₅⟩ := hno unclosed c₄ hc₄
  have hmoves := ((hmoves₁.trans (Moves.step hquestion)).trans hmoves₃).trans (Moves.step hcolon)
  refine ⟨k + 1 + m + 1 + n, stack', e', c', ?_, hmoves.trans hmoves₅, hc', fun level hlevel => ?_⟩
  · simp only [List.length_append, List.length_cons]
    omega
  · rw [hsettle₅ level hlevel, settle_otherwise hlevel]

/-- Parentheses leave nothing on the stack. -/
theorem arrives_parenthesized
    (h : Arrives bound ts (.sign .closeParen :: us) e choiceLevel (.paren :: stack)) (least : Nat) :
    Arrives bound (parenthesized ts) us e least stack := by
  intro unclosed c hc
  simp only [parenthesized, List.cons_append, List.append_assoc, List.nil_append] at hc
  -- the machine looks for another operand first, and finds none that starts with a parenthesis
  have hrefuses : Refuses (operand (expressionAt bound) bound)
      (.sign .openParen :: (ts ++ .sign .closeParen :: us)) := by
    refine refuses_operand _ _ fun t ht => ?_
    obtain rfl := Option.some.inj ht
    rfl
  obtain ⟨c₁, hopen, hc₁⟩ := step_openParen stack unclosed (hrefuses c hc) hc
  obtain ⟨n, stack₂, e₂, c₂, hn, hmoves, hc₂, hsettle⟩ := h (unclosed + 1) c₁ hc₁
  obtain ⟨c₃, hclose, hc₃⟩ := step_closeParen _ stack₂ unclosed e₂ hc₂
  have hwaiting : settle 0 stack₂ e₂ = (.paren :: stack, e) := by
    rw [hsettle 0 (by decide)]
    exact settle_eq_self (Nat.le_refl 0) e
  have hstate : close ⟨stack₂, unclosed + 1, some e₂, c₂⟩ e₂ c₃ = ⟨stack, unclosed, some e, c₃⟩ := by
    simp only [close, hwaiting, Nat.add_sub_cancel]
  rw [hstate] at hclose
  refine ⟨1 + n + 1, stack, e, c₃, ?_, ((Moves.step hopen).trans hmoves).trans (Moves.step hclose),
    hc₃, fun _ _ => rfl⟩
  simp only [parenthesized, List.length_append, List.length_cons, List.length_nil]
  omega

/-- Where the machine arrives with an empty stack an expression is read. -/
theorem Arrives.reads (h : Arrives bound ts us e choiceLevel []) (hts : ts.length ≤ bound)
    (hus : Stops us) : Reads (expressionAt (bound + 1)) (ts ++ us) e us := by
  refine reads_expressionAt fun c hc => ?_
  obtain ⟨n, stack', e', c', hn, hmoves, hc', hsettle⟩ := h 0 c hc
  have hempty : settle 0 stack' e' = ([], e) := hsettle 0 (by decide)
  refine ⟨n, ⟨stack', 0, some e', c'⟩, c', by omega, hmoves, ?_, hc'⟩
  rw [step_stop _ _ _ _ hus.binary hus.question (fun _ => rfl) (fun _ _ _ _ => by simp [hempty]) hc']
  exact finish_eq_done hempty

end Arrives

/-! ### Every expression -/

/-- The tightest operator that may wait for the expression. -/
def tolerated : Node → Nat
  | .choice _ _ _ => choiceLevel
  | .binary op _ _ => op.level - 1
  | _ => UnaryOp.level

/-- An operator of a lower tier may wait for an expression. -/
theorem le_tolerated (e : Node) {level : Nat} (h : level < tierOf e) (hlevel : level ≤ UnaryOp.level) :
    level ≤ tolerated e := by
  cases e with
  | choice c t f =>
    have hzero : level < 1 := h
    simp only [tolerated]
    omega
  | binary op l r =>
    have hop : level < op.level := tier_eq_level op ▸ h
    simp only [tolerated]
    omega
  | _ => exact hlevel

/-- At the tokens of the expression the machine arrives with it, whatever calls and nested expressions
it contains. -/
def Phrased (e : Node) : Prop :=
  ∀ bound us stack, (phrase e).length ≤ bound → topLevel stack ≤ tolerated e →
    us.head? ≠ some (.sign .openParen) → Arrives bound (phrase e) us e (tierOf e) stack

section Phrased

variable {bound least : Nat} {us : List Token} {e : Node} {stack : List Pending}

theorem choiceTier_le_tierOf (e : Node) : choiceTier ≤ tierOf e := by
  cases e with
  | binary op l r => exact Nat.le_trans (Nat.le_succ _) (Nat.le_add_left _ _)
  | choice c t f => exact Nat.le_refl choiceTier
  | unary op e => exact show choiceTier ≤ unaryTier by decide
  | _ => exact show choiceTier ≤ unaryTier + 1 by decide

/-- Between parentheses if it must be, an expression can be an operand of any operator. -/
theorem Phrased.within (h : Phrased e) (hbound : (within least e (phrase e)).length ≤ bound)
    (hstack : least ≤ tierOf e → topLevel stack ≤ tolerated e)
    (hus : us.head? ≠ some (.sign .openParen)) :
    Arrives bound (within least e (phrase e)) us e least stack := by
  unfold Written.within at hbound ⊢
  split at hbound
  · rename_i hlow
    rw [if_pos hlow]
    have hlength : (phrase e).length ≤ bound := by
      simp only [parenthesized, List.length_append, List.length_cons] at hbound
      omega
    have harrives := h bound (.sign .closeParen :: us) (.paren :: stack) hlength (Nat.zero_le _) (by simp)
    exact arrives_parenthesized (harrives.mono (choiceTier_le_tierOf e)) least
  · rename_i hhigh
    have hle : least ≤ tierOf e := Nat.le_of_not_lt hhigh
    rw [if_neg hhigh]
    exact (h bound us stack hbound (hstack hle) hus).mono hle

theorem Phrased.reads (h : Phrased e) (hbound : (phrase e).length ≤ bound) (hus : Stops us) :
    Reads (expressionAt (bound + 1)) (phrase e ++ us) e us := by
  have harrives := h bound us [] hbound (Nat.zero_le _) hus.paren
  exact (harrives.mono (choiceTier_le_tierOf e)).reads hbound hus

/-- Behind the first argument of a call. The bound on repetition is its own one, since it goes down
with each argument. -/
theorem reads_morePhrases {es : List Node} (hes : ∀ e ∈ es, Phrased e)
    (hbound : (morePhrases es).length ≤ bound) (count : Nat) (hcount : (morePhrases es).length < count)
    (us : List Token) :
    Reads (commaTail (expressionAt (bound + 1)) count)
      (morePhrases es ++ .sign .closeParen :: us) es (.sign .closeParen :: us) := by
  induction es generalizing count with
  | nil =>
    obtain ⟨count, rfl⟩ := Nat.exists_eq_succ_of_ne_zero (Nat.ne_of_gt hcount)
    exact reads_commaTail_nil (by simp [morePhrases])
  | cons e es ih =>
    obtain ⟨he, hes⟩ := List.forall_mem_cons.mp hes
    obtain ⟨count, rfl⟩ := Nat.exists_eq_succ_of_ne_zero (Nat.ne_of_gt (Nat.zero_lt_of_lt hcount))
    simp only [morePhrases, List.length_cons, List.length_append] at hbound hcount
    rw [morePhrases, List.cons_append, List.append_assoc]
    have htail := ih hes (by omega) count (by omega)
    refine reads_commaTail_cons (he.reads (by omega) ?_) htail
    cases es with
    | nil => exact stops_cons rfl us
    | cons e' es => exact stops_cons rfl _

/-- The arguments of a call. -/
theorem reads_phrases {es : List Node} (hes : ∀ e ∈ es, Phrased e)
    (hbound : (phrases es).length ≤ bound) (us : List Token) :
    Reads (commaList (expressionAt (bound + 1)) (bound + 1))
      (phrases es ++ .sign .closeParen :: us) es (.sign .closeParen :: us) := by
  cases es with
  | nil =>
    refine reads_commaList_nil (refuses_expressionAt ?_ ?_ (by simp [phrases])) <;>
      · rintro t ht
        obtain rfl := Option.some.inj ht
        rfl
  | cons e es =>
    obtain ⟨he, hes⟩ := List.forall_mem_cons.mp hes
    simp only [phrases, List.length_append] at hbound
    have hlength : (morePhrases es).length ≤ bound := by omega
    rw [phrases, List.append_assoc]
    have htail := reads_morePhrases hes hlength (bound + 1) (by omega) us
    refine reads_commaList_cons (he.reads (by omega) ?_) htail
    cases es with
    | nil => exact stops_cons rfl us
    | cons e' es => exact stops_cons rfl _

end Phrased

theorem choiceLevel_le_tolerated (e : Node) : choiceLevel ≤ tolerated e := by
  cases e with
  | binary op l r => exact Nat.le_sub_one_of_lt (choiceLevel_lt_level op)
  | choice c t f => exact Nat.le_refl _
  | _ => exact Nat.le_of_lt (show choiceLevel < UnaryOp.level by decide)

/-- A token that is read in one step, as an operand. -/
theorem phrased_of_token {e : Node} {t : Token} (hphrase : phrase e = [t]) (hunary : t.unary? = none)
    (h : ∀ expression bound us, us.head? ≠ some (.sign .openParen) →
      Reads (operand expression bound) (t :: us) e us) : Phrased e := by
  intro bound us stack _ _ hus
  rw [hphrase]
  have hread : Reads (operand (expressionAt bound) bound) ([t] ++ us) e us := h _ _ us hus
  exact arrives_operand hunary hread _ stack

/-- Something between parentheses behind its first token, as an operand. -/
theorem phrased_of_parenthesized {e : Node} {t : Token} {ts : List Token}
    (hphrase : phrase e = t :: parenthesized ts) (hunary : t.unary? = none)
    (h : ∀ bound us, ts.length ≤ bound →
      Reads (operand (expressionAt (bound + 1)) (bound + 1))
        (t :: .sign .openParen :: (ts ++ .sign .closeParen :: us)) e us) : Phrased e := by
  intro bound us stack hbound _ _
  rw [hphrase] at hbound ⊢
  simp only [parenthesized, List.length_cons, List.length_append] at hbound
  obtain ⟨bound, rfl⟩ := Nat.exists_eq_succ_of_ne_zero (n := bound) (by omega)
  refine arrives_operand hunary ?_ _ stack
  have hreads := h bound us (by omega)
  simpa only [parenthesized, List.cons_append, List.append_assoc, List.nil_append] using hreads

theorem IsExpression.phrased {e : Node} (h : IsExpression e) : Phrased e := by
  induction h with
  | @int n h =>
    refine phrased_of_token rfl rfl fun expression bound us _ => ?_
    have hread : Reads (operand expression bound) _ _ us := reads_operand_int (Nat.toDigits 10 n) us
    rw [digitsValue_toDigits] at hread
    exact hread
  | @str s h =>
    refine phrased_of_token rfl rfl fun expression bound us _ => ?_
    rw [← stringNode_of_not_infix h]
    exact reads_textToken s us
  | @template s h =>
    refine phrased_of_token rfl rfl fun expression bound us _ => ?_
    rw [← stringNode_of_infix h]
    exact reads_textToken s us
  | bool b =>
    cases b with
    | true => exact phrased_of_token rfl rfl fun _ _ us _ => reads_operand_true us
    | false => exact phrased_of_token rfl rfl fun _ _ us _ => reads_operand_false us
  | none => exact phrased_of_token rfl rfl fun _ _ us _ => reads_operand_none us
  | var hx => exact phrased_of_token rfl rfl fun _ _ us hus => reads_operand_var hus
  | @binary op l r hl hr ihl ihr =>
    intro bound us stack hbound hstack hus
    have hlow : choiceLevel < op.level := choiceLevel_lt_level op
    have hhigh : op.level < UnaryOp.level := by cases op <;> decide
    simp only [phrase, List.length_append, List.length_cons] at hbound ⊢
    rw [tierOf, tier_eq_level] at *
    -- on the left the same tier needs no parentheses, on the right it does
    refine arrives_binary (ihl.within (by omega) (fun hle => ?_) (by simp)) hstack
      (ihr.within (by omega) (fun hle => ?_) hus)
    · have htolerated : op.level - 1 ≤ tolerated l := le_tolerated l (by omega) (by omega)
      exact Nat.le_trans hstack htolerated
    · exact le_tolerated r (Nat.lt_of_succ_le hle) (Nat.le_of_lt hhigh)
  | @unary op e he ih =>
    intro bound us stack hbound _ hus
    simp only [phrase, List.length_cons] at hbound
    refine arrives_unary (ih.within (by omega) (fun hle => ?_) hus)
    -- without parentheses the operand is no binary expression and no choice
    cases e with
    | binary op' l r =>
      have hlevel : op'.level < UnaryOp.level := by cases op' <;> decide
      exact absurd (tier_eq_level op' ▸ hle) (Nat.not_le_of_lt hlevel)
    | choice c t f => exact absurd hle (show ¬unaryTier ≤ choiceTier by decide)
    | _ => exact Nat.le_refl UnaryOp.level
  | @choice c t f hc ht hf ihc iht ihf =>
    intro bound us stack hbound hstack hus
    simp only [phrase, List.length_append, List.length_cons] at hbound ⊢
    have hyes := iht bound (.sign .colon :: (phrase f ++ us)) (.condition c :: stack) (by omega)
      (Nat.zero_le _) (by simp)
    have hno := ihf bound us (.otherwise c t :: stack) (by omega) (choiceLevel_le_tolerated f) hus
    refine arrives_choice (ihc.within (by omega) (fun hle => ?_) (by simp)) hstack
      (hyes.mono (choiceTier_le_tierOf t)) (hno.mono (choiceTier_le_tierOf f))
    exact Nat.le_trans hstack (choiceLevel_le_tolerated c)
  | @call x args hx hargs ih =>
    refine phrased_of_parenthesized rfl rfl fun bound us hbound => ?_
    exact reads_operand_call (reads_phrases ih hbound us)
  | print he ih =>
    refine phrased_of_parenthesized rfl rfl fun bound us hbound => ?_
    exact reads_operand_print (ih.reads hbound (stops_cons rfl us))
  | read he ih =>
    refine phrased_of_parenthesized rfl rfl fun bound us hbound => ?_
    exact reads_operand_read (ih.reads hbound (stops_cons rfl us))
  | @split s d hs hd ihs ihd =>
    refine phrased_of_parenthesized rfl rfl fun bound us hbound => ?_
    simp only [List.length_append, List.length_cons] at hbound
    rw [List.append_assoc, List.cons_append]
    exact reads_operand_split (ihs.reads (by omega) (stops_cons rfl _))
      (ihd.reads (by omega) (stops_cons rfl us))

end Kestrel.Written
