import Mathlib.Data.List.Forall2
import Kestrel.Reader.Expression

/-!
# Two readings in step

Two texts are read side by side by rules of the same build, and a relation says which positions of the
first one go with which of the second. If the tokens are read in step, so is all that is built of them.
The second reading may have higher bounds: they make no difference as long as those of the first one are
not reached.

* `Matches` — the same outcome, at positions that belong together;
* `Follows` — one rule does what another one does, at all positions that belong together;
* `Follows.bind`, `Follows.orElse` and others — the ways to build rules.
-/

namespace Kestrel.Reader

variable {α β : Type} {R : Cursor → Cursor → Prop}

/-- The same outcome, where two positions belong together if `R` relates them. -/
inductive Matches (R : Cursor → Cursor → Prop) : Parsed α → Parsed α → Prop where
  /-- both match -/
  | ok (a : α) {c d : Cursor} (h : R c d) : Matches R (.ok a c) (.ok a d)
  /-- neither matches -/
  | no : Matches R .no .no
  /-- both stop the reading -/
  | halt (reason : Halt) : Matches R (.halt reason) (.halt reason)

theorem Matches.eq_no_iff {r r' : Parsed α} (h : Matches R r r') : r' = .no ↔ r = .no := by
  cases h with
  | no => exact Iff.rfl
  | ok | halt => exact iff_of_false nofun nofun

theorem Matches.eq {r r' : Parsed α} (h : Matches Eq r r') : r = r' := by
  cases h with
  | ok a h' => rw [h']
  | no => rfl
  | halt reason => rfl

theorem Matches.refl (r : Parsed α) : Matches Eq r r := by
  cases r with
  | ok a c => exact .ok a rfl
  | no => exact .no
  | halt reason => exact .halt reason

/-- The rule `q` does what the rule `p` does at the position that goes with it. -/
def Follows (R : Cursor → Cursor → Prop) (p q : Rule α) : Prop :=
  ∀ c d, R c d → p c ≠ .halt .exhausted → Matches R (p c) (q d)

/-- A bound that is not below a positive one is positive too. -/
theorem exists_bound_of_le {n m : Nat} (h : n + 1 ≤ m) : ∃ k, m = k + 1 ∧ n ≤ k :=
  ⟨m - 1, by omega, by omega⟩

namespace Follows

variable {p q : Rule α} {f g : α → Rule β}

theorem token (h : ∀ {c d}, R c d → Matches R (p c) (q d)) : Follows R p q :=
  fun _ _ hcd _ => h hcd

theorem pure (a : α) : Follows R (Pure.pure a : Rule α) (Pure.pure a) :=
  fun _ _ h _ => .ok a h

theorem bind (hp : Follows R p q) (hf : ∀ a, Follows R (f a) (g a)) :
    Follows R (p >>= f) (q >>= g) := by
  intro c d h hrun
  have hfirst : p c ≠ .halt .exhausted := by
    intro hfirst
    rw [Rule.bind_run, hfirst] at hrun
    exact hrun rfl
  have hmatch := hp c d h hfirst
  rw [Rule.bind_run] at hrun
  rw [Rule.bind_run, Rule.bind_run]
  generalize p c = r at hrun hmatch ⊢
  generalize q d = r' at hmatch ⊢
  cases hmatch with
  | ok a h' => exact hf a _ _ h' hrun
  | no => exact .no
  | halt reason => exact .halt reason

theorem orElse {p' q' : Rule α} (hp : Follows R p q) (hp' : Follows R p' q') :
    Follows R (Rule.orElse p p') (Rule.orElse q q') := by
  intro c d h hrun
  have hfirst : p c ≠ .halt .exhausted := by
    intro hfirst
    rw [Rule.orElse, hfirst] at hrun
    exact hrun rfl
  have hmatch := hp c d h hfirst
  rw [Rule.orElse] at hrun
  rw [Rule.orElse, Rule.orElse]
  generalize p c = r at hrun hmatch ⊢
  generalize q d = r' at hmatch ⊢
  cases hmatch with
  | ok a h' => exact .ok a h'
  | no => exact hp' c d h hrun
  | halt reason => exact .halt reason

theorem oneOf {ps qs : List (Rule α)} (h : List.Forall₂ (Follows R) ps qs) :
    Follows R (Rule.oneOf ps) (Rule.oneOf qs) := by
  induction h with
  | nil => exact fun _ _ _ _ => .no
  | cons hp _ ih => exact hp.orElse ih

theorem optional (hp : Follows R p q) : Follows R (Rule.optional p) (Rule.optional q) :=
  (hp.bind fun a => pure (some a)).orElse (pure none)

theorem many (hp : Follows R p q) {n m : Nat} (hnm : n ≤ m) :
    Follows R (Rule.many p n) (Rule.many q m) := by
  induction n generalizing m with
  | zero => exact fun _ _ _ hrun => absurd rfl hrun
  | succ n ih =>
    obtain ⟨m, rfl, hle⟩ := exists_bound_of_le hnm
    have hrest := ih hle
    exact (hp.bind fun a => hrest.bind fun as => pure (a :: as)).orElse (pure [])

end Follows

end Kestrel.Reader
