import Kestrel.Proofs.Written.Lexing
import Mathlib.Data.List.Forall2

/-!
# What a rule does at written tokens

* `Reads` — the rule reads these tokens and stops where those stand;
* `Refuses` — the rule does not match where these tokens stand;
* `Guarded` — the rule does not match unless the first token passes a test.

For each way to build a rule from others there is a lemma for both, so that what a rule does can be
followed token by token. `Takes.reads` and `Takes.refuses` start this off at the lexical rules.
-/

namespace Kestrel.Written

open Reader

variable {α β : Type}

/-- Where the tokens `ts` stand the rule reads `a`, and behind it stand the tokens `us`. -/
def Reads (p : Rule α) (ts : List Token) (a : α) (us : List Token) : Prop :=
  ∀ c, Stands c ts → ∃ c', p c = .ok a c' ∧ Stands c' us

/-- Where the tokens `ts` stand the rule does not match. -/
def Refuses (p : Rule α) (ts : List Token) : Prop :=
  ∀ c, Stands c ts → p c = .no

/-! ### Building rules -/

theorem Reads.pure (a : α) (ts : List Token) : Reads (pure a : Rule α) ts a ts :=
  fun c h => ⟨c, rfl, h⟩

theorem Reads.bind {p : Rule α} {f : α → Rule β} {ts us vs : List Token} {a : α} {b : β}
    (hp : Reads p ts a us) (hf : Reads (f a) us b vs) : Reads (p >>= f) ts b vs := by
  intro c h
  obtain ⟨c', hc', h'⟩ := hp c h
  rw [Rule.bind_run, hc']
  exact hf c' h'

theorem Reads.map {p : Rule α} {ts us : List Token} {a : α} (hp : Reads p ts a us) (f : α → β) :
    Reads (do let x ← p; Pure.pure (f x)) ts (f a) us :=
  Reads.bind hp (Reads.pure (f a) us)

theorem Refuses.bind {p : Rule α} {ts : List Token} (hp : Refuses p ts) (f : α → Rule β) :
    Refuses (p >>= f) ts := by
  intro c h
  rw [Rule.bind_run, hp c h]

theorem Reads.bind_refuses {p : Rule α} {f : α → Rule β} {ts us : List Token} {a : α}
    (hp : Reads p ts a us) (hf : Refuses (f a) us) : Refuses (p >>= f) ts := by
  intro c h
  obtain ⟨c', hc', h'⟩ := hp c h
  rw [Rule.bind_run, hc']
  exact hf c' h'

theorem Reads.orElse {p : Rule α} {ts us : List Token} {a : α} (hp : Reads p ts a us)
    (q : Rule α) : Reads (Rule.orElse p q) ts a us := by
  intro c h
  obtain ⟨c', hc', h'⟩ := hp c h
  exact ⟨c', by rw [Rule.orElse, hc'], h'⟩

theorem Refuses.orElse_reads {p q : Rule α} {ts us : List Token} {a : α} (hp : Refuses p ts)
    (hq : Reads q ts a us) : Reads (Rule.orElse p q) ts a us := by
  intro c h
  obtain ⟨c', hc', h'⟩ := hq c h
  exact ⟨c', by rw [Rule.orElse, hp c h]; exact hc', h'⟩

theorem Refuses.orElse {p q : Rule α} {ts : List Token} (hp : Refuses p ts) (hq : Refuses q ts) :
    Refuses (Rule.orElse p q) ts := by
  intro c h
  rw [Rule.orElse, hp c h]
  exact hq c h

/-- A rule that matches only where the first token passes the test. -/
def Guarded (p : Rule α) (test : Token → Bool) : Prop :=
  ∀ ts, (∀ t, ts.head? = some t → test t = false) → Refuses p ts

/-- Of several rules those whose tests the first token does not pass can be left out. -/
theorem reads_oneOf_drop {ps : List (Rule α)} {tests : List (Token → Bool)}
    (h : List.Forall₂ Guarded ps tests) (n : Nat) {ts us : List Token} {a : α}
    (htests : ∀ test ∈ tests.take n, ∀ t, ts.head? = some t → test t = false)
    (hrest : Reads (Rule.oneOf (ps.drop n)) ts a us) : Reads (Rule.oneOf ps) ts a us := by
  induction n generalizing ps tests with
  | zero => exact hrest
  | succ n ih =>
    cases h with
    | nil => exact hrest
    | @cons p test ps tests hp h =>
      have hrefuses : Refuses p ts := hp ts (htests test (by simp))
      exact hrefuses.orElse_reads (ih h (fun u hu => htests u (by simp [hu])) hrest)

/-- Where the first token passes none of the tests, none of the rules matches. -/
theorem refuses_oneOf {ps : List (Rule α)} {tests : List (Token → Bool)}
    (h : List.Forall₂ Guarded ps tests) {ts : List Token}
    (htests : ∀ test ∈ tests, ∀ t, ts.head? = some t → test t = false) :
    Refuses (Rule.oneOf ps) ts := by
  induction h with
  | nil => exact fun _ _ => rfl
  | @cons p test ps tests hp h ih =>
    exact (hp ts (htests test (by simp))).orElse (ih fun u hu => htests u (by simp [hu]))

/-- A rule reads what it reads, or nothing where it does not match. -/
theorem Reads.optional {p : Rule α} {ts us : List Token} {a : α} (hp : Reads p ts a us) :
    Reads (Rule.optional p) ts (some a) us := by
  exact (hp.map some).orElse _

theorem Refuses.optional {p : Rule α} {ts : List Token} (hp : Refuses p ts) :
    Reads (Rule.optional p) ts none ts :=
  (hp.bind _).orElse_reads (Reads.pure _ _)

/-- Repetition stops where the rule does not match. -/
theorem Refuses.many {p : Rule α} {ts : List Token} (hp : Refuses p ts) (bound : Nat) :
    Reads (Rule.many p (bound + 1)) ts [] ts :=
  (hp.bind _).orElse_reads (Reads.pure _ _)

theorem Reads.many {p : Rule α} {ts us vs : List Token} {a : α} {as : List α} {bound : Nat}
    (hp : Reads p ts a us) (hrest : Reads (Rule.many p bound) us as vs) :
    Reads (Rule.many p (bound + 1)) ts (a :: as) vs := by
  exact Reads.orElse (hp.bind (hrest.map fun as => a :: as)) _

/-! ### Single tokens -/

theorem Takes.reads {p : Rule α} {f : Token → Option α} (hp : Takes p f) {t : Token} {a : α}
    (h : f t = some a) (us : List Token) : Reads p (t :: us) a us := by
  intro c hc
  simpa [h] using hp c (t :: us) hc

theorem Takes.refuses {p : Rule α} {f : Token → Option α} (hp : Takes p f) {ts : List Token}
    (h : ∀ t, ts.head? = some t → f t = none) : Refuses p ts := by
  intro c hc
  cases ts with
  | nil => exact hp c [] hc
  | cons t us => simpa [h t rfl] using hp c (t :: us) hc

/-- A rule that starts with one for a single token. -/
theorem Takes.guarded_bind {p : Rule α} {f : Token → Option α} (hp : Takes p f) (g : α → Rule β) :
    Guarded (p >>= g) fun t => (f t).isSome :=
  fun _ h => (hp.refuses fun t ht => Option.isSome_eq_false_iff.mp (h t ht) |> Option.isNone_iff_eq_none.mp).bind g

theorem reads_keyword (k : Keyword) (us : List Token) :
    Reads (keyword k) (.keyword k :: us) () us :=
  (takes_keyword k).reads (if_pos rfl) us

theorem refuses_keyword {k : Keyword} {ts : List Token} (h : ts.head? ≠ some (.keyword k)) :
    Refuses (keyword k) ts := by
  refine (takes_keyword k).refuses fun t ht => if_neg ?_
  rintro rfl
  exact h ht

theorem reads_identifier (x : String) (us : List Token) : Reads identifier (.name x :: us) x us :=
  takes_identifier.reads rfl us

theorem refuses_identifier {ts : List Token} (h : ∀ x, ts.head? ≠ some (.name x)) :
    Refuses identifier ts := by
  refine takes_identifier.refuses fun t ht => ?_
  cases t with
  | name x => exact absurd ht (h x)
  | _ => rfl

theorem reads_symbol {s : Sign} (hs : s.isPlain = true) (us : List Token) :
    Reads (symbol s.text) (.sign s :: us) () us :=
  (takes_symbol hs).reads (if_pos rfl) us

theorem refuses_symbol {s : Sign} (hs : s.isPlain = true) {ts : List Token}
    (h : ts.head? ≠ some (.sign s)) : Refuses (symbol s.text) ts := by
  refine (takes_symbol hs).refuses fun t ht => if_neg ?_
  rintro rfl
  exact h ht

theorem reads_assignSign (us : List Token) : Reads assignSign (.sign .assign :: us) () us :=
  takes_assignSign.reads (if_pos rfl) us

theorem refuses_assignSign {ts : List Token} (h : ts.head? ≠ some (.sign .assign)) :
    Refuses assignSign ts := by
  refine takes_assignSign.refuses fun t ht => if_neg ?_
  rintro rfl
  exact h ht

theorem reads_integer (ds : List Char) (us : List Token) :
    Reads integer (.int ds :: us) (digitsValue ds) us :=
  takes_integer.reads rfl us

theorem reads_string (raw : List Char) (us : List Token) :
    Reads string (.string raw :: us) (unescapeFrom 0 raw) us :=
  takes_string.reads rfl us

end Kestrel.Written
