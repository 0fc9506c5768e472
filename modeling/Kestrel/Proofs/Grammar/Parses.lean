import Kestrel.Proofs.Grammar.Basic
import Kestrel.Proofs.Reading.Basic

/-!
# Rules that read phrases

`Parses` relates a rule of the reader to a phrase of the grammar, in both directions at once. What the
rule reads is such a phrase; and if the tokens are such a phrase with something behind it that
satisfies `f`, the rule matches and stops where `f` holds again.

The second half does not say that the rule stops behind this very phrase. The reader takes the longest
phrase, and the grammar allows shorter ones, so all that can be carried through a program is that the
rest is still some row of tokens that may stand there.

Each way to build a rule from others has a lemma. Of two alternatives the first one is taken, so what
can be read as the second must not be lost by this (`Parses.orElse`); mostly the first tokens differ.
-/

namespace Kestrel.Written

open Reader

variable {α β : Type}

/-- What the rule does at a position where the tokens `ts` stand. -/
inductive Outcome (p : Rule α) (l f : List Token → Prop) (c : Cursor) (ts : List Token) : Prop where
  /-- it does not match, and it must not -/
  | no (h : p c = .no) (hf : ¬Followed l f ts)
  /-- it reads the tokens `us` -/
  | ok {a : α} {d : Cursor} {us vs : List Token} (h : p c = .ok a d) (hts : ts = us ++ vs)
    (hvs : Stands d vs) (hus : l us) (hf : Followed l f ts → f vs)

/-- At no more than `n` tokens the rule reads phrases `l` in front of what satisfies `f`. -/
def Parses (n : Nat) (p : Rule α) (l f : List Token → Prop) : Prop :=
  ∀ c ts, Stands c ts → ts.length ≤ n → Outcome p l f c ts

section Parses

variable {n : Nat} {p q : Rule α} {l m f : List Token → Prop} {γ : List Symbol}

theorem Parses.mono {n' : Nat} (h : Parses n p l f) (hn : n' ≤ n) : Parses n' p l f :=
  fun c ts hc hts => h c ts hc (Nat.le_trans hts hn)

/-- A phrase described in another way. -/
theorem Parses.congr (h : Parses n p l f) (hl : ∀ us, l us ↔ m us) : Parses n p m f := by
  have heq : l = m := funext fun us => propext (hl us)
  rwa [heq] at h

/-! ### Sequences -/

theorem Parses.pure (a : α) : Parses n (pure a : Rule α) (Derives []) f :=
  fun _ ts hc _ => .ok rfl (List.nil_append ts).symm hc .nil followed_nil_iff.mp

/-- One rule after another, where the second one reads the rest only. -/
theorem Parses.append {g : α → Rule β} (hp : Parses n p l (Followed m f))
    (hg : ∀ a us vs, l us → (us ++ vs).length ≤ n → Parses vs.length (g a) m f) :
    Parses n (p >>= g) (Followed l m) f := by
  intro c ts hc hts
  cases hp c ts hc hts with
  | no h hno =>
    refine .no ?_ fun hf => hno (followed_assoc.mp hf)
    rw [Rule.bind_run, h]
  | @ok a d us vs h hsplit hvs hus hf =>
    cases hg a us vs hus (hsplit ▸ hts) d vs hvs (Nat.le_refl _) with
    | no h' hno =>
      refine .no ?_ fun hfollowed => hno (hf (followed_assoc.mp hfollowed))
      rw [Rule.bind_run, h]
      exact h'
    | @ok b d' us' ws h' hsplit' hws hus' hf' =>
      have hrun : (p >>= g) c = .ok b d' := by
        rw [Rule.bind_run, h]
        exact h'
      have hts' : ts = (us ++ us') ++ ws := by rw [hsplit, hsplit', List.append_assoc]
      exact .ok hrun hts' hws ⟨us, us', rfl, hus, hus'⟩
        fun hfollowed => hf' (hf (followed_assoc.mp hfollowed))

/-- One rule after another, without a look at how many tokens are left. -/
theorem Parses.andThen {g : α → Rule β} (hp : Parses n p l (Followed m f))
    (hg : ∀ a, Parses n (g a) m f) : Parses n (p >>= g) (Followed l m) f := by
  refine Parses.append hp fun a us vs _ hlength => (hg a).mono ?_
  rw [List.length_append] at hlength
  omega

theorem Parses.bind {x : Phrase} {g : α → Rule β}
    (hp : Parses n p (Derives [.phrase x]) (Followed (Derives γ) f))
    (hg : ∀ a, Parses n (g a) (Derives γ) f) : Parses n (p >>= g) (Derives (.phrase x :: γ)) f :=
  (Parses.andThen hp hg).congr fun _ => derives_phrase_iff.symm

/-- A rule that reads a phrase, with something made of it. -/
theorem Parses.map {g : α → β} (hp : Parses n p l f) :
    Parses n (do let a ← p; Pure.pure (g a)) l f := by
  intro c ts hc hts
  cases hp c ts hc hts with
  | no h hno => exact .no (by rw [Rule.bind_run, h]) hno
  | @ok a d us vs h hsplit hvs hus hf =>
    have hrun : (do let a ← p; Pure.pure (g a) : Rule β) c = .ok (g a) d := by
      rw [Rule.bind_run, h]
      rfl
    exact .ok hrun hsplit hvs hus hf

/-- The rule reads a token of this kind and refuses all others. -/
def Scans (p : Rule α) (a : Terminal) : Prop :=
  ∃ g, Takes p g ∧ ∀ t, (g t).isSome = true ↔ t.terminal = a

theorem Scans.parses {a : Terminal} (hp : Scans p a) : Parses n p (Derives [.token a]) f := by
  obtain ⟨k, htakes, hkind⟩ := hp
  intro c ts hc _
  by_cases hhead : ∃ t us, ts = t :: us ∧ t.terminal = a
  · obtain ⟨t, us, rfl, ht⟩ := hhead
    obtain ⟨b, hb⟩ := Option.isSome_iff_exists.mp ((hkind t).mpr ht)
    obtain ⟨d, h, hd⟩ := htakes.reads hb us c hc
    refine .ok h rfl hd (.token ht .nil) fun hf => ?_
    obtain ⟨-, hus⟩ := followed_cons_iff.mp hf
    exact followed_nil_iff.mp hus
  · refine .no (htakes.refuses (fun t ht => ?_) c hc) fun hf => hhead ?_
    · obtain ⟨us, rfl⟩ := List.head?_eq_some_iff.mp ht
      by_contra hsome
      exact hhead ⟨t, us, rfl, (hkind t).mp (Option.isSome_iff_ne_none.mpr hsome)⟩
    · obtain ⟨t, us, hts, ht, -⟩ := followed_token_iff.mp hf
      exact ⟨t, us, hts, ht⟩

/-- Behind its token a rule has fewer tokens to read. -/
theorem Parses.token_of_lt {a : Terminal} {g : α → Rule β} (hp : Scans p a)
    (hg : ∀ n' < n, ∀ b, Parses n' (g b) (Derives γ) f) :
    Parses n (p >>= g) (Derives (.token a :: γ)) f := by
  have happend : Parses n (p >>= g) (Followed (Derives [.token a]) (Derives γ)) f := by
    refine Parses.append hp.parses fun b us vs hus hlength => hg _ ?_ b
    obtain ⟨t, us, rfl, -, -⟩ := derives_token_iff.mp hus
    rw [List.length_append, List.length_cons] at hlength
    omega
  rwa [← derives_append_eq] at happend

theorem Parses.token {a : Terminal} {g : α → Rule β} (hp : Scans p a)
    (hg : ∀ b, Parses n (g b) (Derives γ) f) : Parses n (p >>= g) (Derives (.token a :: γ)) f :=
  token_of_lt hp fun _ hn b => (hg b).mono (Nat.le_of_lt hn)

/-! ### Alternatives -/

/-- Either of two rules. Where a phrase of the first one stands, what can be read as one of the second
can be read as one of the first as well. -/
theorem Parses.orElse (hp : Parses n p l f) (hq : Parses n q m f)
    (hprefer : ∀ us vs, l us → Followed m f (us ++ vs) → Followed l f (us ++ vs)) :
    Parses n (Rule.orElse p q) (fun us => l us ∨ m us) f := by
  intro c ts hc hts
  cases hp c ts hc hts with
  | no h hno =>
    have hrun : Rule.orElse p q c = q c := by rw [Rule.orElse, h]
    cases hq c ts hc hts with
    | no h' hno' => exact .no (hrun.trans h') fun hf => (followed_or.mp hf).elim hno hno'
    | ok h' hsplit hvs hus hf' =>
      exact .ok (hrun.trans h') hsplit hvs (.inr hus) fun hf => hf' ((followed_or.mp hf).resolve_left hno)
  | @ok a d us vs h hsplit hvs hus hf' =>
    -- the second rule is not tried, and what it could have read is one for the first
    subst hsplit
    have hrun : Rule.orElse p q c = .ok a d := by rw [Rule.orElse, h]
    exact .ok hrun rfl hvs (.inl hus) fun hf => hf' ((followed_or.mp hf).elim id (hprefer us vs hus))

theorem forall₂_exists_left {α β : Type} {r : α → β → Prop} {as : List α} {bs : List β}
    (h : List.Forall₂ r as bs) {b : β} (hb : b ∈ bs) : ∃ a ∈ as, r a b := by
  induction h with
  | nil => cases hb
  | @cons a b' as bs hr h ih =>
    rcases List.mem_cons.mp hb with rfl | hb
    · exact ⟨a, List.mem_cons_self .., hr⟩
    · obtain ⟨a', ha', hr'⟩ := ih hb
      exact ⟨a', List.mem_cons_of_mem _ ha', hr'⟩

/-- A phrase that starts with a token that nothing else starts with. -/
theorem prefer_of_apart {a : Terminal} {us vs : List Token} (h : Derives (.token a :: γ) us)
    (hapart : ∀ t ws, t.terminal = a → ¬Followed m f (t :: ws)) (hm : Followed m f (us ++ vs)) :
    Followed l f (us ++ vs) := by
  obtain ⟨t, us, rfl, ht, -⟩ := derives_token_iff.mp h
  exact absurd hm (hapart t _ ht)

/-- A rule for a phrase that starts with a certain kind of token. -/
def Form (n : Nat) (f : List Token → Prop) (p : Rule α) (γ : List Symbol) : Prop :=
  Parses n p (Derives γ) f ∧ ∃ a δ, γ = .token a :: δ

/-- Of several rules for phrases with different first tokens, and one for the remaining phrases. -/
theorem Parses.oneOf {ps qs : List (Rule α)} {γs : List (List Symbol)}
    (hps : List.Forall₂ (Form n f) ps γs) (hqs : Parses n (Rule.oneOf qs) m f)
    (hnodup : (γs.map List.head?).Nodup)
    (hapart : ∀ t us, some (Symbol.token t.terminal) ∈ γs.map List.head? → ¬Followed m f (t :: us)) :
    Parses n (Rule.oneOf (ps ++ qs)) (fun us => (∃ γ ∈ γs, Derives γ us) ∨ m us) f := by
  induction hps with
  | nil => exact hqs.congr (by simp)
  | @cons p γ ps γs hp hps ih =>
    obtain ⟨hparses, a, δ, rfl⟩ := hp
    rw [List.map_cons, List.nodup_cons] at hnodup
    have hrest := ih hnodup.2 fun t us ht => hapart t us (List.mem_cons_of_mem _ ht)
    refine (Parses.orElse hparses hrest fun us vs hus => prefer_of_apart hus ?_).congr
      (by simp [or_assoc])
    rintro t ts rfl ⟨vs, ws, hsplit, hvs | hvs, hws⟩
    · -- another one of the phrases
      obtain ⟨γ, hγ, hvs⟩ := hvs
      obtain ⟨q, -, hq⟩ := forall₂_exists_left hps hγ
      obtain ⟨-, b, δ', rfl⟩ := hq
      obtain ⟨t', vs, rfl, rfl, -⟩ := derives_token_iff.mp hvs
      obtain ⟨rfl, -⟩ := List.cons.inj hsplit
      exact hnodup.1 (List.mem_map.mpr ⟨_, hγ, rfl⟩)
    · exact hapart t ts (List.mem_cons_self ..) ⟨vs, ws, hsplit, hvs, hws⟩

theorem Parses.oneOf_singleton (hp : Parses n p l f) : Parses n (Rule.oneOf [p]) l f := by
  have hfail : Parses n (Rule.fail : Rule α) (fun _ => False) f :=
    fun _ _ _ _ => .no rfl fun ⟨_, _, _, h, _⟩ => h
  exact (Parses.orElse hp hfail fun _ _ _ ⟨_, _, _, h, _⟩ => h.elim).congr (by simp)

/-! ### Repetition -/

theorem many_ne_no (bound : Nat) (c : Cursor) : Rule.many p bound c ≠ .no := by
  cases bound with
  | zero => simp [Rule.many, Rule.stop]
  | succ bound =>
    rw [Rule.many, Rule.orElse]
    split
    · simp
    · assumption

/-- A phrase that may be repeated, and does not start where the row must end. -/
theorem Parses.many {x : Phrase} {bound : Nat} (hx : rules x = [[], γ ++ [.phrase x]])
    (hne : ∀ us, Derives γ us → us ≠ []) (hbound : n < bound) (hstop : ∀ us vs, Derives γ us → ¬f (us ++ vs))
    (hp : Parses n p (Derives γ) (Followed (Derives [.phrase x]) f)) :
    Parses n (Rule.many p bound) (Derives [.phrase x]) f := by
  induction bound generalizing n with
  | zero => exact absurd hbound (Nat.not_lt_zero n)
  | succ bound ih =>
    intro c ts hc hts
    have hcases : Followed (Derives [.phrase x]) f ts →
        f ts ∨ Followed (Derives γ) (Followed (Derives [.phrase x]) f) ts := by
      intro hfollowed
      obtain ⟨δ, hδ, hfollowed⟩ := hfollowed.exists_rule
      rw [hx, List.mem_cons, List.mem_singleton] at hδ
      rcases hδ with rfl | rfl
      · exact .inl (followed_nil_iff.mp hfollowed)
      · exact .inr (followed_append_iff.mp hfollowed)
    cases hp c ts hc hts with
    | no h hno =>
      have hrun : Rule.many p (bound + 1) c = .ok [] c := by
        rw [Rule.many, Rule.orElse, Rule.bind_run, h]
        rfl
      have hnil : Derives [.phrase x] [] := Derives.rule (by simp [hx]) .nil
      exact .ok hrun (List.nil_append ts).symm hc hnil fun hf => (hcases hf).resolve_right hno
    | @ok a d us vs h hsplit hvs hus hf =>
      -- a phrase is not empty, so fewer tokens are left and the bound is still enough
      have hpos : 0 < us.length := List.length_pos_iff.mpr (hne us hus)
      have hlength : ts.length = us.length + vs.length := by rw [hsplit, List.length_append]
      have hbound' : vs.length < bound := by omega
      cases ih hbound' (hp.mono (by omega)) d vs hvs (Nat.le_refl _) with
      | no h' => exact absurd h' (many_ne_no bound d)
      | @ok as d' us' ws h' hsplit' hws hus' hf' =>
        have hrun : Rule.many p (bound + 1) c = .ok (a :: as) d' := by
          rw [Rule.many, Rule.orElse, Rule.bind_run, h]
          simp only [Rule.bind_run, h']
          rfl
        have hderives : Derives [.phrase x] (us ++ us') :=
          Derives.rule (by simp [hx]) (derives_append_iff.mpr ⟨us, us', rfl, hus, hus'⟩)
        refine .ok hrun (by rw [hsplit, hsplit', List.append_assoc]) hws hderives fun hfollowed => ?_
        rcases hcases hfollowed with hend | hmore
        · exact absurd (hsplit ▸ hend) (hstop us vs hus)
        · exact hf' (hf hmore)

/-- A phrase that may be left out, and does not start where it is. -/
theorem Parses.optional (hp : Parses n p l f) (hapart : ∀ us vs, l us → ¬f (us ++ vs)) :
    Parses n (Rule.optional p) (fun us => l us ∨ Derives [] us) f :=
  Parses.orElse hp.map (Parses.pure Option.none) fun us vs hus hf =>
    absurd (followed_nil_iff.mp hf) (hapart us vs hus)

end Parses

end Kestrel.Written
