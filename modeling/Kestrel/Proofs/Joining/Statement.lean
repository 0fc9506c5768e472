import Kestrel.Proofs.Grammar.Parses
import Kestrel.Proofs.Joining.Kind
import Kestrel.Proofs.Joining.Token

/-!
# Statements with more text behind them

A statement that ends with a semicolon or a closing brace may be the last one of a text. Then the rule for
it looks at what comes behind only if it is a condition, and only for an `else`. So a statement is read in
the same way with more text behind, if no `else` stands where it ends, be it in its own text or behind it.

Nothing is said of statements that cannot be read. A block that its text leaves open, for one, may be
closed in the text behind it.

* `Carries` — what one rule reads, another one reads with more text behind;
* `carries_statements`, `carries_row` — a row of statements, from statements;
* `carries_block`, `carries_declaration`, `carries_loop`, `carries_conditional`, `carries_simple` — the
  kinds of statement, given the statements inside them;
* `carries_statementAt` — statements.
-/

namespace Kestrel.Reader

variable {α β : Type} {t : List Char} {c c' d : Cursor}

/-! ### Rules that match -/

theorem bind_eq_of_ok {p : Rule α} {a : α} (h : p c = .ok a c') (f : α → Rule β) :
    (p >>= f) c = f a c' := by
  rw [Rule.bind_run, h]

theorem bind_eq_ok {p : Rule α} {f : α → Rule β} {b : β} (h : (p >>= f) c = .ok b c') :
    ∃ a c₁, p c = .ok a c₁ ∧ f a c₁ = .ok b c' := by
  rw [Rule.bind_run] at h
  split at h
  next a c₁ hp => exact ⟨a, c₁, hp, h⟩
  all_goals cases h

theorem of_bind_eq_no {p : Rule α} {f : α → Rule β} (h : (p >>= f) c = .no) :
    p c = .no ∨ ∃ a c₁, p c = .ok a c₁ ∧ f a c₁ = .no := by
  rw [Rule.bind_run] at h
  split at h
  next a c₁ hp => exact .inr ⟨a, c₁, hp, h⟩
  next hp => exact .inl hp
  next => cases h

theorem orElse_eq_ok {p q : Rule α} {a : α} (h : Rule.orElse p q c = .ok a c') :
    p c = .ok a c' ∨ p c = .no ∧ q c = .ok a c' := by
  rw [Rule.orElse] at h
  split at h
  next hp => exact .inr ⟨hp, h⟩
  next => exact .inl h

theorem orElse_of_ok {p : Rule α} {a : α} (h : p c = .ok a c') (q : Rule α) :
    Rule.orElse p q c = .ok a c' := by
  rw [Rule.orElse, h]

theorem optional_of_no {p : Rule α} (h : p c = .no) : Rule.optional p c = .ok none c :=
  orElse_of_no (bind_eq_no h _) _

theorem optional_of_ok {p : Rule α} {a : α} (h : p c = .ok a c') :
    Rule.optional p c = .ok (some a) c' :=
  orElse_of_ok (bind_eq_of_ok h fun a => pure (some a)) _

theorem optional_eq_ok {p : Rule α} {o : Option α} (h : Rule.optional p c = .ok o c') :
    (p c = .no ∧ o = none ∧ c' = c) ∨ ∃ a, p c = .ok a c' ∧ o = some a := by
  rcases orElse_eq_ok h with h | ⟨hno, h⟩
  · obtain ⟨a, c₁, hp, h⟩ := bind_eq_ok h
    cases h
    exact .inr ⟨a, hp, rfl⟩
  · cases h
    obtain hp | ⟨a, c₁, _, hpure⟩ := of_bind_eq_no hno
    · exact .inl ⟨hp, rfl, rfl⟩
    · cases hpure

theorem many_of_no {p : Rule α} (h : p c = .no) (bound : Nat) :
    Rule.many p (bound + 1) c = .ok [] c :=
  orElse_of_no (bind_eq_no h _) _

theorem many_of_ok {p : Rule α} {a : α} {as : List α} {bound : Nat} {c₁ : Cursor}
    (h : p c = .ok a c₁) (hrest : Rule.many p bound c₁ = .ok as c') :
    Rule.many p (bound + 1) c = .ok (a :: as) c' := by
  refine orElse_of_ok ?_ _
  rw [bind_eq_of_ok h, bind_eq_of_ok hrest]
  rfl

theorem many_eq_ok {p : Rule α} {as : List α} {bound : Nat}
    (h : Rule.many p (bound + 1) c = .ok as c') :
    (p c = .no ∧ as = [] ∧ c' = c) ∨
      ∃ a c₁ as', p c = .ok a c₁ ∧ Rule.many p bound c₁ = .ok as' c' ∧ as = a :: as' := by
  rcases orElse_eq_ok h with h | ⟨hno, h⟩
  · obtain ⟨a, c₁, hp, h⟩ := bind_eq_ok h
    obtain ⟨as', c₂, hrest, h⟩ := bind_eq_ok h
    cases h
    exact .inr ⟨a, c₁, as', hp, hrest, rfl⟩
  · cases h
    obtain hp | ⟨a, c₁, _, hrest⟩ := of_bind_eq_no hno
    · exact .inl ⟨hp, rfl, rfl⟩
    · obtain hrest | ⟨as, c₂, _, hpure⟩ := of_bind_eq_no hrest
      · exact absurd hrest (Written.many_ne_no bound c₁)
      · cases hpure

/-- There are less elements than the bound says. -/
theorem length_lt_of_many {p : Rule α} {as : List α} {bound : Nat}
    (h : Rule.many p bound c = .ok as c') : as.length < bound := by
  induction bound generalizing c as with
  | zero => cases h
  | succ bound ih =>
    rcases many_eq_ok h with ⟨_, rfl, _⟩ | ⟨a, c₁, as', _, hrest, rfl⟩
    · exact Nat.succ_pos bound
    · exact Nat.succ_lt_succ (ih hrest)

/-! ### Texts that are read on -/

/-- No `else` stands at the position. -/
def NoElse (c : Cursor) : Prop := keyword .else c = .no

/-- What the rule `p` reads, if `P` holds where it ends, the rule `q` reads with the text `t` behind. -/
def Carries (t : List Char) (P : Cursor → Prop) (p q : Rule α) : Prop :=
  ∀ c d a c', Extends t c d → p c = .ok a c' → P c' → ∃ d', q d = .ok a d' ∧ Goes t c' d'

section Carries

variable {P : Cursor → Prop} {p q : Rule α} {f g : α → Rule β}

theorem Follows.of_ok (h : Follows (Extends t) p q) (hcd : Extends t c d) {a : α} (hp : p c = .ok a c') :
    ∃ d', q d = .ok a d' ∧ Extends t c' d' := by
  have hmatch := h c d hcd (by rw [hp]; nofun)
  rw [hp] at hmatch
  generalize q d = r at hmatch ⊢
  cases hmatch with
  | ok _ h' => exact ⟨_, rfl, h'⟩

theorem Follows.bind_carries (hp : Follows (Extends t) p q) (hf : ∀ a, Carries t P (f a) (g a)) :
    Carries t P (p >>= f) (q >>= g) := by
  intro c d b c' h hrun hend
  obtain ⟨a, c₁, hfirst, hrest⟩ := bind_eq_ok hrun
  obtain ⟨d₁, hfirst', h'⟩ := hp.of_ok h hfirst
  rw [bind_eq_of_ok hfirst']
  exact hf a c₁ d₁ b c' h' hrest hend

/-- What is made of what was read makes no difference. -/
theorem Carries.map (hp : Carries t P p q) (f : α → β) :
    Carries t P (do let a ← p; pure (f a)) (do let a ← q; pure (f a)) := by
  intro c d b c' h hrun hend
  obtain ⟨a, c₁, hfirst, hpure⟩ := bind_eq_ok hrun
  cases hpure
  obtain ⟨d', hfirst', hgoes⟩ := hp c d a c' h hfirst hend
  refine ⟨d', ?_, hgoes⟩
  rw [bind_eq_of_ok hfirst']
  rfl

end Carries

/-! ### Rows of statements -/

theorem Extends.closed (h : Extends t c d) (hc : Closed c) : Closed d := by
  intro x hx
  rw [h.rest, h.joins.head?_append] at hx
  exact hc x hx

theorem statementAt_ne_ok (h : Closed c) (n : Nat) (e : Node) : statementAt n c ≠ .ok e c' := by
  cases n with
  | zero => nofun
  | succ n =>
    rw [h.statementAt n]
    nofun

theorem noElse_of_statementAt {n : Nat} {e : Node} (h : statementAt n c = .ok e c') : NoElse c := by
  cases n with
  | zero => cases h
  | succ n =>
    by_contra helse
    rw [statementAt_else helse] at h
    cases h

/-- Where a row of statements can be read up to its end, there is no `else`. -/
theorem noElse_of_many {n bound : Nat} {es : List Node}
    (h : Rule.many (statementAt n) bound c = .ok es c') (hend : Closed c') : NoElse c := by
  cases bound with
  | zero => cases h
  | succ bound =>
    obtain ⟨_, _, rfl⟩ | ⟨e, c₁, es', hfirst, _, _⟩ := many_eq_ok h
    · exact hend.keyword .else
    · exact noElse_of_statementAt hfirst

section Blocks

variable {n m : Nat} (hs : Carries t NoElse (statementAt n) (statementAt m))
include hs

/-- A row of statements is read up to its end with more text behind, and then reading goes on there. -/
theorem carries_statements {bound : Nat} {es : List Node} (h : Extends t c d)
    (hrun : Rule.many (statementAt n) bound c = .ok es c') (hend : Closed c') :
    ∃ d', Goes t c' d' ∧ ∀ l fs c'', Rule.many (statementAt m) l d' = .ok fs c'' →
      Rule.many (statementAt m) (es.length + l) d = .ok (es ++ fs) c'' := by
  induction bound generalizing c d es with
  | zero => cases hrun
  | succ bound ih =>
    obtain ⟨_, rfl, rfl⟩ | ⟨e, c₁, es', hfirst, hrest, rfl⟩ := many_eq_ok hrun
    · refine ⟨d, .inl h, fun l fs c'' hmany => ?_⟩
      rwa [List.length_nil, Nat.zero_add]
    · obtain ⟨d₁, hfirst', hgoes⟩ := hs c d e c₁ h hfirst (noElse_of_many hrest hend)
      obtain h₁ | ⟨ht, hc₁, hd₁⟩ := hgoes
      · obtain ⟨d', hgoes', happend⟩ := ih h₁ hrest
        refine ⟨d', hgoes', fun l fs c'' hmany => ?_⟩
        rw [List.length_cons, Nat.add_right_comm]
        exact many_of_ok hfirst' (happend l fs c'' hmany)
      · -- the text ends here, so there are no more statements
        cases bound with
        | zero => cases hrest
        | succ bound =>
          obtain ⟨_, rfl, rfl⟩ | ⟨e₂, c₂, _, hnext, _, _⟩ := many_eq_ok hrest
          · refine ⟨d₁, .inr ⟨ht, hc₁, hd₁⟩, fun l fs c'' hmany => ?_⟩
            rw [List.length_singleton, Nat.add_comm]
            exact many_of_ok hfirst' hmany
          · exact absurd hnext (statementAt_ne_ok (.of_rest hc₁) n e₂)

/-- A row of statements ends with more text behind where it ends without, unless the text ends there. -/
theorem carries_row (hnm : n ≤ m) {k l : Nat} (hkl : k ≤ l) {es : List Node} (h : Extends t c d)
    (hrun : Rule.many (statementAt n) k c = .ok es c') (hend : Closed c')
    (hgoes : ∀ d', Goes t c' d' → Extends t c' d') :
    ∃ d', Rule.many (statementAt m) l d = .ok es d' ∧ Extends t c' d' := by
  obtain ⟨d', hd', happend⟩ := carries_statements hs h hrun hend
  have h' : Extends t c' d' := hgoes d' hd'
  have hlength : es.length < k := length_lt_of_many hrun
  have hno : statementAt m d' = .no := by
    cases n with
    | zero => cases k <;> cases hrun
    | succ n =>
      obtain ⟨m, rfl, -⟩ := exists_bound_of_le hnm
      exact (h'.closed hend).statementAt m
  have hmany := happend (l - es.length - 1 + 1) [] d' (many_of_no hno _)
  refine ⟨d', ?_, h'⟩
  rwa [List.append_nil, show es.length + (l - es.length - 1 + 1) = l by omega] at hmany

theorem carries_block (hnm : n ≤ m) :
    Carries t (fun _ => True) (block (statementAt n) (n + 1)) (block (statementAt m) (m + 1)) := by
  intro c d e c' h hrun _
  obtain ⟨_, c₁, hopen, hrun⟩ := bind_eq_ok hrun
  obtain ⟨es, c₂, hmany, hrun⟩ := bind_eq_ok hrun
  obtain ⟨_, c₃, hclose, hrun⟩ := bind_eq_ok hrun
  cases hrun
  have hhead : c₂.skip.rest.head? = some '}' := by
    by_contra hhead
    rw [symbol_eq_no rfl hhead] at hclose
    cases hclose
  have hclosed : Closed c₂ := by
    rintro x hx
    rw [hhead] at hx
    exact (Option.some.inj hx).symm
  obtain ⟨d₁, hopen', h₁⟩ := (follows_symbol (by decide) (by decide)).of_ok h hopen
  obtain ⟨d₂, hmany', h₂⟩ := carries_row hs hnm (Nat.succ_le_succ hnm) h₁ hmany hclosed
    fun d₂ hgoes => hgoes.resolve_right fun ⟨_, hrest, _⟩ => by
      rw [Cursor.skip, hrest] at hhead
      cases hhead
  obtain ⟨hno, _⟩ | ⟨c₄, d₃, hclose₂, hclose', hgoes⟩ := goes_symbol (s := "\x7d") rfl rfl h₂
  · rw [hno] at hclose
    cases hclose
  · rw [hclose₂] at hclose
    cases hclose
    refine ⟨d₃, ?_, hgoes⟩
    rw [block, bind_eq_of_ok hopen', bind_eq_of_ok hmany', bind_eq_of_ok hclose']
    rfl

end Blocks

/-! ### Kinds of statement -/

section Kinds

variable {expression expression' body body' : Rule Node} {n m : Nat}

theorem carries_declaration (hbody : Carries t (fun _ => True) body body') (hnm : n ≤ m) :
    Carries t (fun _ => True) (declaration body n) (declaration body' m) :=
  (follows_keyword .function).bind_carries fun _ =>
    follows_identifier.bind_carries fun name =>
      (follows_symbol (by decide) (by decide)).bind_carries fun _ =>
        ((expressionTokens_extends t).follows_commaList follows_identifier hnm).bind_carries fun params =>
          (follows_symbol (by decide) (by decide)).bind_carries fun _ => hbody.map (Node.declare name params)

theorem carries_loop (hexpr : Follows (Extends t) expression expression')
    (hbody : Carries t (fun _ => True) body body') :
    Carries t (fun _ => True) (loop expression body) (loop expression' body') :=
  (follows_keyword .for).bind_carries fun _ =>
    (follows_symbol (by decide) (by decide)).bind_carries fun _ =>
      follows_identifier.bind_carries fun name =>
        (follows_keyword .in).bind_carries fun _ =>
          hexpr.bind_carries fun first =>
            (follows_symbol (by decide) (by decide)).bind_carries fun _ =>
              hexpr.bind_carries fun last =>
                (follows_symbol (by decide) (by decide)).bind_carries fun _ =>
                  hbody.map (Node.forLoop name first last)

theorem carries_semicolon : Carries t (fun _ => True) semicolon semicolon := by
  intro c d _ c' h hrun _
  obtain ⟨o, c₁, hoptional, hrun⟩ := bind_eq_ok hrun
  cases hrun
  obtain ⟨hno, hno'⟩ | ⟨c₂, d₂, hok, hok', hgoes⟩ := goes_symbol (s := ";") rfl rfl h
  · rw [optional_of_no hno] at hoptional
    cases hoptional
    refine ⟨d, ?_, .inl h⟩
    rw [semicolon, bind_eq_of_ok (optional_of_no hno')]
    rfl
  · rw [optional_of_ok hok] at hoptional
    cases hoptional
    refine ⟨d₂, ?_, hgoes⟩
    rw [semicolon, bind_eq_of_ok (optional_of_ok hok')]
    rfl

theorem carries_simple (hexpr : Follows (Extends t) expression expression') :
    Carries t (fun _ => True) (simple expression) (simple expression') :=
  ((follows_assignment (expressionTokens_extends t) (.token matches_assignSign) hexpr).orElse
    hexpr).bind_carries fun e =>
    carries_semicolon.map fun _ => e

/-- The branch of an `else` is another condition or a block. -/
theorem carries_branch {statement statement' : Rule Node} {k l : Nat}
    (hconditional : Carries t NoElse (conditional expression (block statement k) n)
      (conditional expression' (block statement' l) m)) (hnm : n ≤ m)
    (hblock : Carries t (fun _ => True) (block statement k) (block statement' l)) :
    Carries t NoElse
      (Rule.orElse (conditional expression (block statement k) n) (block statement k))
      (Rule.orElse (conditional expression' (block statement' l) m) (block statement' l)) := by
  intro c d e c' h hrun hend
  obtain hok | ⟨hno, hok⟩ := orElse_eq_ok hrun
  · obtain ⟨d', hok', hgoes⟩ := hconditional c d e c' h hok hend
    exact ⟨d', orElse_of_ok hok' _, hgoes⟩
  · obtain ⟨d', hok', hgoes⟩ := hblock c d e c' h hok trivial
    refine ⟨d', ?_, hgoes⟩
    cases n with
    | zero => cases hno
    | succ n =>
      obtain ⟨m, rfl, -⟩ := exists_bound_of_le hnm
      have hbrace : symbol "\x7b" c ≠ .no := by
        intro hbrace
        rw [block_eq_no hbrace] at hok
        cases hok
      have hif := (matches_keyword .if h).eq_no_iff.mpr (keyword_eq_no_of_brace hbrace .if)
      rw [orElse_of_no (conditional_eq_no hif), hok']

/-- A condition looks behind its end for an `else`, which must not stand there. -/
theorem carries_else (helse : ∀ before, NoElse ⟨before, t⟩) {branch branch' : Rule Node}
    (hbranch : Carries t NoElse branch branch') (hgoes : Goes t c d) {other : Option Node}
    (hrun : Rule.optional (do keyword .else; branch) c = .ok other c') (hend : NoElse c') :
    ∃ d', Rule.optional (do keyword .else; branch') d = .ok other d' ∧ Goes t c' d' := by
  obtain h | ⟨ht, hc, hd⟩ := hgoes
  · obtain ⟨_, rfl, rfl⟩ | ⟨e, hok, rfl⟩ := optional_eq_ok hrun
    · have hno := (matches_keyword .else h).eq_no_iff.mpr hend
      exact ⟨d, optional_of_no (bind_eq_no hno _), .inl h⟩
    · obtain ⟨_, c₁, hkeyword, hbody⟩ := bind_eq_ok hok
      obtain ⟨d₁, hkeyword', h₁⟩ := (follows_keyword .else).of_ok h hkeyword
      obtain ⟨d', hbody', hgoes⟩ := hbranch c₁ d₁ e c' h₁ hbody hend
      exact ⟨d', optional_of_ok ((bind_eq_of_ok hkeyword' _).trans hbody'), hgoes⟩
  · have hno : keyword .else c = .no := (Closed.of_rest hc).keyword .else
    rw [optional_of_no (bind_eq_no hno _)] at hrun
    cases hrun
    have hno' : keyword .else d = .no := by
      have hthere := helse d.before
      rw [← hd] at hthere
      exact hthere
    exact ⟨d, optional_of_no (bind_eq_no hno' _), .inr ⟨ht, hc, hd⟩⟩


theorem carries_conditional (helse : ∀ before, NoElse ⟨before, t⟩)
    (hexpr : Follows (Extends t) expression expression') {statement statement' : Rule Node} {k l : Nat}
    (hblock : Carries t (fun _ => True) (block statement k) (block statement' l)) (hnm : n ≤ m) :
    Carries t NoElse (conditional expression (block statement k) n)
      (conditional expression' (block statement' l) m) := by
  induction n generalizing m with
  | zero =>
    intro _ _ _ _ _ hrun
    cases hrun
  | succ n ih =>
    obtain ⟨m, rfl, hle⟩ := exists_bound_of_le hnm
    refine (follows_keyword .if).bind_carries fun _ =>
      (follows_symbol (by decide) (by decide)).bind_carries fun _ => hexpr.bind_carries fun condition =>
        (follows_symbol (by decide) (by decide)).bind_carries fun _ => ?_
    intro c d e c' h hrun hend
    obtain ⟨yes, c₁, hyes, hrun⟩ := bind_eq_ok hrun
    obtain ⟨other, c₂, hother, hrun⟩ := bind_eq_ok hrun
    cases hrun
    obtain ⟨d₁, hyes', hgoes⟩ := hblock c d yes c₁ h hyes trivial
    obtain ⟨d', hother', hgoes'⟩ :=
      carries_else helse (carries_branch (ih hle) hle hblock) hgoes hother hend
    refine ⟨d', ?_, hgoes'⟩
    rw [bind_eq_of_ok hyes', bind_eq_of_ok hother']
    rfl

end Kinds

/-- A statement is read in the same way with more text behind, if no `else` stands where it ends. -/
theorem carries_statementAt (helse : ∀ before, NoElse ⟨before, t⟩) {n m : Nat} (hnm : n ≤ m) :
    Carries t NoElse (statementAt n) (statementAt m) := by
  induction n generalizing m with
  | zero =>
    intro _ _ _ _ _ hrun
    cases hrun
  | succ n ih =>
    obtain ⟨m, rfl, hle⟩ := exists_bound_of_le hnm
    have hexpr : Follows (Extends t) (expressionAt (n + 1)) (expressionAt (m + 1)) :=
      follows_expressionAt (expressionTokens_extends t) hnm
    have hblock := carries_block (ih hle) hle
    intro c d e c' h hrun hend
    have hkeyword (k : Keyword) : keyword k d = .no ↔ keyword k c = .no :=
      (matches_keyword k h).eq_no_iff
    have hbrace : symbol "\x7b" d = .no ↔ symbol "\x7b" c = .no :=
      (matches_symbol (by decide) (by decide) h).eq_no_iff
    rw [statementAt_eq] at hrun ⊢
    simp only [Ne, hkeyword, hbrace]
    split at hrun
    next hfunction =>
      rw [if_pos hfunction]
      exact carries_declaration hblock hnm c d e c' h hrun trivial
    next hfunction =>
    rw [if_neg hfunction]
    split at hrun
    next hfor =>
      rw [if_pos hfor]
      exact carries_loop hexpr hblock c d e c' h hrun trivial
    next hfor =>
    rw [if_neg hfor]
    split at hrun
    next hif =>
      rw [if_pos hif]
      exact carries_conditional helse hexpr hblock hnm c d e c' h hrun hend
    next hif =>
    rw [if_neg hif]
    split at hrun
    next hopen =>
      rw [if_pos hopen]
      exact hblock c d e c' h hrun trivial
    next hopen =>
      rw [if_neg hopen]
      exact carries_simple hexpr c d e c' h hrun trivial

end Kestrel.Reader
