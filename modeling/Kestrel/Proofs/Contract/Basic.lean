import Kestrel.Reader.Expression

/-!
# What rules ensure

What a rule reads, and where it stops, depends on where it starts. A contract says what it ensures about
both, given what is known of the start. It also passes on whatever else was known before, so that facts
about what was read earlier stay at hand while the rules after it are followed.

* `Evidence` — what it takes to know a fact at a position;
* `Rule.Ensures` — contracts;
* `Rule.Ensures.bind`, `Rule.Ensures.orElse` and others — the ways to build rules.
-/

namespace Kestrel.Reader

variable {α β : Type}

/-- What it takes to know a fact at a position. It need not be true there: it may be enough that it is
true unless the reading is bound to fail. -/
structure Evidence where
  /-- the fact is known at the position -/
  Known : Cursor → Prop → Prop
  /-- with it all that follows from it is known -/
  imp {c : Cursor} {A B : Prop} : (A → B) → Known c A → Known c B

/-- Known is what is true. -/
def Evidence.plain : Evidence := ⟨fun _ A => A, fun h => h⟩

/-- Any position. -/
def anywhere : Cursor → Prop := fun _ => True

/-- Where the start satisfies `pre` and the rule matches, what it reads satisfies `P` and the position
after it satisfies `post`. Whatever else was known is known then, too. -/
def Rule.Ensures (E : Evidence) (pre : Cursor → Prop) (p : Rule α) (P : α → Prop)
    (post : Cursor → Prop) : Prop :=
  ∀ ⦃c a c'⦄ (A : Prop), p c = .ok a c' → E.Known c (A ∧ pre c) → E.Known c' (A ∧ P a ∧ post c')

namespace Rule.Ensures

variable {E : Evidence} {pre mid post : Cursor → Prop} {p q : Rule α} {P : α → Prop} {Q : β → Prop}

theorem imp {pre' post' : Cursor → Prop} {P' : α → Prop} (h : Ensures E pre p P post)
    (hpre : ∀ c, pre' c → pre c) (hP : ∀ a, P a → P' a) (hpost : ∀ c, post c → post' c) :
    Ensures E pre' p P' post' := by
  intro c a c' A ha hc
  have hstart : E.Known c (A ∧ pre c) := E.imp (fun h => ⟨h.1, hpre c h.2⟩) hc
  exact E.imp (fun h => ⟨h.1, hP a h.2.1, hpost c' h.2.2⟩) (h A ha hstart)

/-- More may be known of the start. -/
theorem strengthen {pre' : Cursor → Prop} (h : Ensures E pre p P post) (hpre : ∀ c, pre' c → pre c) :
    Ensures E pre' p P post :=
  h.imp hpre (fun _ => id) (fun _ => id)

theorem from_anywhere (h : Ensures E anywhere p P post) : Ensures E pre p P post :=
  h.strengthen fun _ _ => True.intro

/-- Less may be said of the position behind. -/
theorem weaken {post' : Cursor → Prop} (h : Ensures E pre p P post) (hpost : ∀ c, post c → post' c) :
    Ensures E pre p P post' :=
  h.imp (fun _ => id) (fun _ => id) hpost

theorem to_anywhere (h : Ensures E pre p P post) : Ensures E pre p P anywhere :=
  h.weaken fun _ _ => True.intro

theorem pure {a : α} (ha : P a) : Ensures E pre (pure a) P pre := by
  rintro c _ _ A ⟨⟩ hc
  exact E.imp (fun h => ⟨h.1, ha, h.2⟩) hc

/-- What the first rule ensures of what it has read is at hand for the second one. -/
theorem bind {f : α → Rule β} (hp : Ensures E pre p P mid)
    (hf : ∀ a, Ensures E mid (f a) (fun b => P a → Q b) post) : Ensures E pre (p >>= f) Q post := by
  intro c b c'' A hb hc
  rw [Rule.bind_run] at hb
  split at hb
  next a c' ha =>
    have hmid : E.Known c' ((A ∧ P a) ∧ mid c') := E.imp (fun h => ⟨⟨h.1, h.2.1⟩, h.2.2⟩) (hp A ha hc)
    exact E.imp (fun h => ⟨h.1.1, h.2.1 h.1.2, h.2.2⟩) (hf a (A ∧ P a) hb hmid)
  all_goals cases hb

theorem orElse (hp : Ensures E pre p P post) (hq : Ensures E pre q P post) :
    Ensures E pre (Rule.orElse p q) P post := by
  intro c a c' A ha hc
  rw [Rule.orElse.eq_def] at ha
  split at ha
  · exact hq A ha hc
  · exact hp A ha hc

theorem fail : Ensures E pre (Rule.fail : Rule α) P post := nofun

theorem stop (reason : Halt) : Ensures E pre (Rule.stop reason : Rule α) P post := nofun

theorem oneOf {ps : List (Rule α)} (h : ∀ p ∈ ps, Ensures E pre p P post) :
    Ensures E pre (Rule.oneOf ps) P post := by
  induction ps with
  | nil => exact fail
  | cons p ps ih =>
    exact orElse (h p List.mem_cons_self) (ih fun q hq => h q (List.mem_cons_of_mem _ hq))

theorem optional (hp : Ensures E pre p P pre) :
    Ensures E pre (Rule.optional p) (fun o => ∀ a ∈ o, P a) pre := by
  refine orElse (bind hp fun a => pure ?_) (pure nofun)
  rintro ha _ ⟨⟩
  exact ha

theorem many (hp : Ensures E pre p P pre) (bound : Nat) :
    Ensures E pre (Rule.many p bound) (fun as => ∀ a ∈ as, P a) pre := by
  induction bound with
  | zero => exact stop _
  | succ bound ih =>
    refine orElse (bind hp fun a => bind ih fun as => pure ?_) (pure nofun)
    exact fun has ha => List.forall_mem_cons.mpr ⟨ha, has⟩

end Rule.Ensures

end Kestrel.Reader
