import Kestrel.Proofs.Joining.Statement
import Kestrel.Proofs.Unclosed.Token

/-!
# Statements without their last brace

If a text ends with a closing brace, a statement that ends there cannot be read without the brace: a block
that stays open does not match, and neither does a loop or a function with such a block. Only of a condition
can something be left. If the block that stays open is behind an `else`, the condition ends in front of it.
No statement starts with what is left, so no row of statements gets beyond it.

* `Breaks`, `Loses` — the outcomes of a rule with the last brace and without it;
* `Follows.bind_loses`, `Loses.andThen`, `Loses.bind`, `Loses.map` — rules one after another;
* `loses_statements`, `loses_block` — a row of statements, and a block of them;
* `loses_declaration`, `loses_loop`, `loses_conditional` — the kinds of statement that end with a block;
* `loses_statementAt` — statements.
-/

namespace Kestrel.Reader

variable {α β : Type} {P : Cursor → Prop} {c d : Cursor}

/-! ### Rules that end with the text -/

/-- The outcomes of a rule without the last brace and with it. They are the same, or the rule reads all of
the text with the brace. Then without it the rule does not match, or it ends earlier where `P` holds. -/
inductive Breaks (P : Cursor → Prop) : Parsed α → Parsed α → Prop where
  /-- the same outcome -/
  | same {r r' : Parsed α} (h : Matches Clips r r') : Breaks P r r'
  /-- the rule needs the brace -/
  | missing (a : α) {d : Cursor} (hend : d.rest = []) : Breaks P .no (.ok a d)
  /-- without the brace the rule reads less -/
  | early (a b : α) {c d : Cursor} (hc : P c) (hend : d.rest = []) : Breaks P (.ok a c) (.ok b d)

/-- Without the last brace the rule `p` has the outcome that the rule `q` has with it, or `q` reads all of
the text. Then `p` does not match, or it ends where `P` holds. -/
def Loses (P : Cursor → Prop) (p q : Rule α) : Prop :=
  ∀ c d, Clips c d → p c ≠ .halt .exhausted → Breaks P (p c) (q d)

theorem bind_eq_halt {p : Rule α} {reason : Halt} (h : p c = .halt reason) (f : α → Rule β) :
    (p >>= f) c = .halt reason := by
  rw [Rule.bind_run, h]

theorem orElse_of_halt {p : Rule α} {reason : Halt} (h : p c = .halt reason) (q : Rule α) :
    Rule.orElse p q c = .halt reason := by
  rw [Rule.orElse, h]

theorem optional_of_halt {p : Rule α} {reason : Halt} (h : p c = .halt reason) :
    Rule.optional p c = .halt reason :=
  orElse_of_halt (bind_eq_halt h _) _

theorem many_of_halt {p : Rule α} {reason : Halt} (h : p c = .halt reason) (bound : Nat) :
    Rule.many p (bound + 1) c = .halt reason :=
  orElse_of_halt (bind_eq_halt h _) _

/-- After one element come the others. -/
theorem many_succ_of_ok {p : Rule α} {a : α} {c' : Cursor} (h : p c = .ok a c') (bound : Nat) :
    Rule.many p (bound + 1) c = (do let as ← Rule.many p bound; pure (a :: as)) c' := by
  rw [Rule.many, Rule.orElse, bind_eq_of_ok h]
  split
  next hno =>
    obtain hno | ⟨as, c₁, -, hpure⟩ := of_bind_eq_no hno
    · exact absurd hno (Written.many_ne_no bound c')
    · cases hpure
  next => rfl

theorem Follows.loses {p q : Rule α} (h : Follows Clips p q) : Loses P p q :=
  fun c d hcd hrun => .same (h c d hcd hrun)

theorem Follows.bind_loses {p q : Rule α} {f g : α → Rule β} (hp : Follows Clips p q)
    (hf : ∀ a, Loses P (f a) (g a)) : Loses P (p >>= f) (q >>= g) := by
  intro c d h hrun
  have hmatch := hp c d h fun hhalt => hrun (bind_eq_halt hhalt f)
  rw [Rule.bind_run] at hrun
  rw [Rule.bind_run, Rule.bind_run]
  generalize p c = r at hrun hmatch ⊢
  generalize q d = r' at hmatch ⊢
  cases hmatch with
  | ok a h' => exact hf a _ _ h' hrun
  | no => exact .same .no
  | halt reason => exact .same (.halt reason)

namespace Loses

variable {p q : Rule α} {f g : α → Rule β}

theorem mono (hp : Loses (fun _ => False) p q) : Loses P p q := by
  intro c d h hrun
  have hbreak := hp c d h hrun
  generalize p c = r at hbreak ⊢
  generalize q d = r' at hbreak ⊢
  cases hbreak with
  | same h => exact .same h
  | missing a hend => exact .missing a hend
  | early a b hc hend => exact hc.elim

/-- One rule after another, by what the first one comes to. -/
theorem andThen {Q : Cursor → Prop} (hp : Loses Q p q)
    (hsame : ∀ a c d, Clips c d → f a c ≠ .halt .exhausted → Breaks P (f a c) (g a d))
    (hmissing : ∀ a d, d.rest = [] → Breaks P .no (g a d))
    (hearly : ∀ a b c d, Q c → d.rest = [] → Breaks P (f a c) (g b d)) :
    Loses P (p >>= f) (q >>= g) := by
  intro c d h hrun
  have hbreak := hp c d h fun hhalt => hrun (bind_eq_halt hhalt f)
  rw [Rule.bind_run] at hrun
  rw [Rule.bind_run, Rule.bind_run]
  generalize p c = r at hrun hbreak ⊢
  generalize q d = r' at hbreak ⊢
  cases hbreak with
  | same hmatch =>
    cases hmatch with
    | ok a h' => exact hsame a _ _ h' hrun
    | no => exact .same .no
    | halt reason => exact .same (.halt reason)
  | missing a hend => exact hmissing a _ hend
  | early a b hc hend => exact hearly a b _ _ hc hend

/-- A rule that needs the brace, and then one that needs nothing where the text has ended. -/
theorem bind (hp : Loses (fun _ => False) p q) (hf : ∀ a, Loses P (f a) (g a))
    (hstop : ∀ a d, d.rest = [] → ∃ b, g a d = .ok b d) : Loses P (p >>= f) (q >>= g) := by
  refine hp.andThen hf (fun a d hend => ?_) fun _ _ _ _ hc => hc.elim
  obtain ⟨b, hb⟩ := hstop a d hend
  rw [hb]
  exact .missing b hend

/-- What is made of what was read makes no difference. -/
theorem map (hp : Loses P p q) (f : α → β) :
    Loses P (do let a ← p; pure (f a)) (do let a ← q; pure (f a)) :=
  hp.andThen (fun a _ _ h _ => .same (.ok (f a) h)) (fun a _ hend => .missing (f a) hend)
    fun a b _ _ hc hend => .early (f a) (f b) hc hend

end Loses

/-! ### Rows of statements -/

theorem closed_of_head (h : c.skip.rest.head? = some '}') : Closed c := by
  intro x hx
  rw [h] at hx
  exact (Option.some.inj hx).symm

/-- Where a row of statements ends without the last brace, it ends with it. -/
theorem Clips.closed (h : Clips c d) (hc : Closed c) : Closed d := by
  intro x hx
  rw [h.rest] at hx
  cases hrest : c.skip.rest with
  | nil =>
    rw [hrest] at hx
    exact (Option.some.inj hx).symm
  | cons y ys =>
    rw [hrest] at hx
    exact hc x (hrest ▸ hx)

/-- In front of an `else` a row of statements has ended. -/
theorem many_of_else {n k : Nat} (helse : ¬NoElse c)
    (hrun : Rule.many (statementAt n) k c ≠ .halt .exhausted) :
    Rule.many (statementAt n) k c = .ok [] c := by
  cases k with
  | zero => exact absurd rfl hrun
  | succ k =>
    cases n with
    | zero => exact absurd (many_of_halt rfl k) hrun
    | succ n => exact many_of_no (statementAt_else helse n) k

section Blocks

variable {n m : Nat} (hs : Loses (fun c => ¬NoElse c) (statementAt n) (statementAt m))
include hs

/-- A row of statements that needs the brace ends earlier without it, and then the text goes on with
something else than a closing brace. -/
theorem loses_statements (hm : 0 < m) {k l : Nat} (hkl : k < l) :
    Loses (fun c => ¬Closed c) (Rule.many (statementAt n) k) (Rule.many (statementAt m) l) := by
  obtain ⟨m, rfl⟩ := Nat.exists_eq_add_one.mpr hm
  induction k generalizing l with
  | zero => exact fun c d _ hrun => absurd rfl hrun
  | succ k ih =>
    obtain ⟨l, rfl, hlt⟩ : ∃ l', l = l' + 1 + 1 ∧ k < l' + 1 := ⟨l - 2, by omega, by omega⟩
    intro c d h hrun
    have hbreak := hs c d h fun hhalt => hrun (many_of_halt hhalt k)
    -- a row has no more elements where the text with the brace has ended
    have hlast {e : Node} {d' : Cursor} (he : statementAt (m + 1) d = .ok e d') (hend : d'.rest = []) :
        Rule.many (statementAt (m + 1)) (l + 1 + 1) d = .ok [e] d' :=
      many_of_ok he (many_of_no ((Closed.of_rest hend).statementAt m) l)
    generalize hp : statementAt n c = r at hbreak
    generalize hq : statementAt (m + 1) d = r' at hbreak
    cases hbreak with
    | same hmatch =>
      cases hmatch with
      | ok e h' =>
        rw [many_succ_of_ok hp] at hrun ⊢
        rw [many_succ_of_ok hq]
        exact (ih hlt).map (e :: ·) _ _ h' hrun
      | no =>
        rw [many_of_no hp, many_of_no hq]
        exact .same (.ok [] h)
      | halt reason =>
        rw [many_of_halt hp, many_of_halt hq]
        exact .same (.halt reason)
    | missing e hend =>
      rw [many_of_no hp, hlast hq hend]
      exact .early [] [e] (fun hc => statementAt_ne_ok (h.closed hc) _ e hq) hend
    | @early e e' c₁ _ helse hend =>
      rw [many_succ_of_ok hp] at hrun
      have hrest := many_of_else helse fun hhalt => hrun (bind_eq_halt hhalt _)
      rw [many_of_ok hp hrest, hlast hq hend]
      exact .early [e] [e'] (fun hc => helse (hc.keyword .else)) hend

/-- A block that ends with the brace does not match without it. -/
theorem loses_block (hnm : n < m) :
    Loses (fun _ => False) (block (statementAt n) (n + 1)) (block (statementAt m) (m + 1)) := by
  refine Follows.bind_loses (.token fun h => sameLook_clips.matches_symbol h (by decide) (by decide))
    fun _ => ?_
  -- no brace is left where the text with the brace has ended
  have hended {d : Cursor} (hend : d.rest = []) : symbol "\x7d" d = .no := by
    refine symbol_eq_no rfl ?_
    rw [Cursor.skip, hend]
    exact (Option.some_ne_none '}').symm
  refine (loses_statements hs (Nat.zero_lt_of_lt hnm) (Nat.succ_lt_succ hnm)).andThen
    (fun es c d h hrun => ?_) (fun es d hend => ?_) (fun es es' c d hopen hend => ?_)
  · obtain hbrace | ⟨-, hno, d', hok, hend⟩ := clips_symbol (s := "\x7d") rfl rfl h
    · rw [Rule.bind_run, Rule.bind_run]
      generalize symbol "\x7d" c = r at hbrace ⊢
      generalize symbol "\x7d" d = r' at hbrace ⊢
      cases hbrace with
      | ok _ h' => exact .same (.ok (Node.block es) h')
      | no => exact .same .no
      | halt reason => exact .same (.halt reason)
    · rw [bind_eq_no hno, bind_eq_of_ok hok]
      exact .missing (Node.block es) hend
  · rw [bind_eq_no (hended hend)]
    exact .same .no
  · rw [bind_eq_no (symbol_eq_no rfl fun hhead => hopen (closed_of_head hhead)), bind_eq_no (hended hend)]
    exact .same .no

end Blocks

/-! ### Kinds of statement -/

section Kinds

variable {expression expression' body body' : Rule Node} {n m : Nat}

theorem expressionTokens_clips : ExpressionTokens Clips := sameLook_clips.expressionTokens

theorem loses_declaration (hbody : Loses (fun _ => False) body body') (hnm : n ≤ m) :
    Loses (fun _ => False) (declaration body n) (declaration body' m) :=
  have htokens := expressionTokens_clips
  (htokens.follows_keyword .function).bind_loses fun _ =>
    htokens.follows_identifier.bind_loses fun name =>
      (htokens.follows_sign (by decide)).bind_loses fun _ =>
        (htokens.follows_commaList htokens.follows_identifier hnm).bind_loses fun params =>
          (htokens.follows_sign (by decide)).bind_loses fun _ => hbody.map (Node.declare name params)

theorem loses_loop (hexpr : Follows Clips expression expression')
    (hbody : Loses (fun _ => False) body body') :
    Loses (fun _ => False) (loop expression body) (loop expression' body') :=
  have htokens := expressionTokens_clips
  (htokens.follows_keyword .for).bind_loses fun _ =>
    (htokens.follows_sign (by decide)).bind_loses fun _ =>
      htokens.follows_identifier.bind_loses fun name =>
        (htokens.follows_keyword .in).bind_loses fun _ =>
          hexpr.bind_loses fun first =>
            (Follows.token fun h => sameLook_clips.matches_symbol h (by decide) (by decide)).bind_loses
              fun _ =>
              hexpr.bind_loses fun last =>
                (htokens.follows_sign (by decide)).bind_loses fun _ =>
                  hbody.map (Node.forLoop name first last)

theorem follows_simple_clips (hexpr : Follows Clips expression expression') :
    Follows Clips (simple expression) (simple expression') := by
  have hsemicolon : Follows Clips (symbol ";") (symbol ";") := by
    refine .token fun h => (clips_symbol (s := ";") rfl rfl h).resolve_right ?_
    rintro ⟨heq, -⟩
    cases heq
  exact ((follows_assignment expressionTokens_clips (.token sameLook_clips.matches_assignSign)
    hexpr).orElse hexpr).bind fun e => (hsemicolon.optional.bind fun _ => .pure ()).bind fun _ => .pure e

/-- If the branch of an `else` needs the brace, the branch does not match without it. -/
theorem loses_branch {statement statement' : Rule Node} {k l : Nat}
    (hconditional : Loses (fun c => ¬NoElse c) (conditional expression (block statement k) n)
      (conditional expression' (block statement' l) m))
    (hblock : Loses (fun _ => False) (block statement k) (block statement' l)) :
    Loses (fun c => ¬NoElse c)
      (Rule.orElse (conditional expression (block statement k) n) (block statement k))
      (Rule.orElse (conditional expression' (block statement' l) m) (block statement' l)) := by
  intro c d h hrun
  have hbreak := hconditional c d h fun hhalt => hrun (orElse_of_halt hhalt _)
  generalize hp : conditional expression (block statement k) n c = r at hbreak
  generalize hq : conditional expression' (block statement' l) m d = r' at hbreak
  cases hbreak with
  | same hmatch =>
    cases hmatch with
    | ok e h' =>
      rw [orElse_of_ok hp, orElse_of_ok hq]
      exact .same (.ok e h')
    | no =>
      rw [orElse_of_no hp] at hrun ⊢
      rw [orElse_of_no hq]
      exact hblock.mono c d h hrun
    | halt reason =>
      rw [orElse_of_halt hp, orElse_of_halt hq]
      exact .same (.halt reason)
  | missing e hend =>
    -- a condition starts here, so there is no block
    have hif : keyword .if c ≠ .no := by
      intro hif
      have hif' := (sameLook_clips.matches_keyword h .if).eq_no_iff.mpr hif
      cases m with
      | zero => cases hq
      | succ m =>
        rw [conditional_eq_no hif'] at hq
        cases hq
    rw [orElse_of_no hp, block_eq_no (brace_eq_no_of_keyword hif), orElse_of_ok hq]
    exact .missing e hend
  | early e e' hc hend =>
    rw [orElse_of_ok hp, orElse_of_ok hq]
    exact .early e e' hc hend

/-- If the branch of an `else` needs the brace, the condition ends in front of the `else` without it. -/
theorem loses_else {branch branch' : Rule Node}
    (hbranch : Loses (fun c => ¬NoElse c) branch branch') :
    Loses (fun c => ¬NoElse c) (Rule.optional do keyword .else; branch)
      (Rule.optional do keyword .else; branch') := by
  intro c d h hrun
  have hbreak := Follows.bind_loses (expressionTokens_clips.follows_keyword .else) (fun _ => hbranch)
    c d h fun hhalt => hrun (optional_of_halt hhalt)
  generalize hp : (do keyword .else; branch : Rule Node) c = r at hbreak
  generalize hq : (do keyword .else; branch' : Rule Node) d = r' at hbreak
  cases hbreak with
  | same hmatch =>
    cases hmatch with
    | ok e h' =>
      rw [optional_of_ok hp, optional_of_ok hq]
      exact .same (.ok (some e) h')
    | no =>
      rw [optional_of_no hp, optional_of_no hq]
      exact .same (.ok none h)
    | halt reason =>
      rw [optional_of_halt hp, optional_of_halt hq]
      exact .same (.halt reason)
  | missing e hend =>
    have helse : ¬NoElse c := by
      intro helse
      have helse' := (sameLook_clips.matches_keyword h .else).eq_no_iff.mpr helse
      rw [bind_eq_no helse'] at hq
      cases hq
    rw [optional_of_no hp, optional_of_ok hq]
    exact .early none (some e) helse hend
  | early e e' hc hend =>
    rw [optional_of_ok hp, optional_of_ok hq]
    exact .early (some e) (some e') hc hend

theorem loses_conditional (hexpr : Follows Clips expression expression')
    {statement statement' : Rule Node} {k l : Nat}
    (hblock : Loses (fun _ => False) (block statement k) (block statement' l)) (hnm : n ≤ m) :
    Loses (fun c => ¬NoElse c) (conditional expression (block statement k) n)
      (conditional expression' (block statement' l) m) := by
  have htokens := expressionTokens_clips
  induction n generalizing m with
  | zero => exact fun c d _ hrun => absurd rfl hrun
  | succ n ih =>
    obtain ⟨m, rfl, hle⟩ := exists_bound_of_le hnm
    refine (htokens.follows_keyword .if).bind_loses fun _ =>
      (htokens.follows_sign (by decide)).bind_loses fun _ => hexpr.bind_loses fun condition =>
        (htokens.follows_sign (by decide)).bind_loses fun _ => ?_
    refine hblock.bind (fun yes => (loses_else (loses_branch (ih hle) hblock)).map (ifNode condition yes))
      fun yes d hend => ⟨ifNode condition yes none, ?_⟩
    have helse : keyword .else d = .no := (Closed.of_rest hend).keyword .else
    rw [bind_eq_of_ok (optional_of_no (bind_eq_no helse _))]
    rfl

end Kinds

/-- A statement that needs the brace does not match without it, or it ends in front of an `else`. -/
theorem loses_statementAt {n m : Nat} (hnm : n < m) :
    Loses (fun c => ¬NoElse c) (statementAt n) (statementAt m) := by
  induction n generalizing m with
  | zero => exact fun c d _ hrun => absurd rfl hrun
  | succ n ih =>
    obtain ⟨m, rfl, hlt⟩ := exists_bound_of_le hnm
    have hle : n + 1 ≤ m + 1 := Nat.le_of_lt hnm
    have hexpr : Follows Clips (expressionAt (n + 1)) (expressionAt (m + 1)) :=
      follows_expressionAt expressionTokens_clips hle
    have hblock := loses_block (ih hlt) hlt
    intro c d h hrun
    have hkeyword (k : Keyword) : keyword k d = .no ↔ keyword k c = .no :=
      (sameLook_clips.matches_keyword h k).eq_no_iff
    have hbrace : symbol "\x7b" d = .no ↔ symbol "\x7b" c = .no :=
      (sameLook_clips.matches_symbol h (by decide) (by decide)).eq_no_iff
    rw [statementAt_eq] at hrun ⊢
    rw [statementAt_eq]
    simp only [Ne, hkeyword, hbrace] at hrun ⊢
    split
    next hfunction =>
      rw [if_pos hfunction] at hrun
      exact (loses_declaration hblock hle).mono c d h hrun
    next hfunction =>
    rw [if_neg hfunction] at hrun
    split
    next hfor =>
      rw [if_pos hfor] at hrun
      exact (loses_loop hexpr hblock).mono c d h hrun
    next hfor =>
    rw [if_neg hfor] at hrun
    split
    next hif =>
      rw [if_pos hif] at hrun
      exact loses_conditional hexpr hblock hle c d h hrun
    next hif =>
    rw [if_neg hif] at hrun
    split
    next hopen =>
      rw [if_pos hopen] at hrun
      exact hblock.mono c d h hrun
    next hopen =>
      rw [if_neg hopen] at hrun
      exact (follows_simple_clips hexpr).loses c d h hrun

end Kestrel.Reader
