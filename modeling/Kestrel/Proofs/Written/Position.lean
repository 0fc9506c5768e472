import Kestrel.Proofs.Written.Token

/-!
# Positions between tokens

In a text that was written from tokens the reader only ever stops between two of them.

* `Stands` — a position has these tokens before it, and no other character;
* `Takes` — a rule reads exactly one token, and what it makes of the token.

Every lexical rule looks at the text behind the blanks alone, so `takes_of_skip` reduces a statement
about all positions to one about a single token with a space, or nothing, behind it.
-/

namespace Kestrel.Written

open Reader Text

variable {α : Type}

/-- At the position stand these tokens, up to the end of the text. -/
structure Stands (c : Cursor) (ts : List Token) : Prop where
  /-- each token is one -/
  valid : ∀ t ∈ ts, t.valid = true
  /-- behind the blanks the tokens are written -/
  rest : c.skip.rest = write ts
  /-- no letter touches the first token from the left -/
  before : ts ≠ [] → c.skip.before.any isWordChar = false

/-- Nothing is skipped in front of a token. -/
theorem skipFrom_write {ts : List Token} (h : ∀ t ∈ ts, t.valid = true) (before : Option Char) :
    skipFrom .gap before (write ts) = ⟨before, write ts⟩ := by
  cases ts with
  | nil => rfl
  | cons t us =>
    obtain ⟨c, cs, hspell, hgap, hslash⟩ := head_spell (h t (List.mem_cons_self ..))
    have hcomment : startsComment (c :: (cs ++ gapped us)) = false := by
      cases cs with
      | cons d ds =>
        have hc : c ≠ '/' := fun e => List.cons_ne_nil d ds (hslash e)
        simp [startsComment, hc]
      | nil =>
        cases us with
        | nil => rfl
        | cons u us => simp [startsComment]
    rw [write_cons, hspell, List.cons_append]
    simp [skipFrom, hgap, hcomment]

/-- Behind a token one space is skipped. -/
theorem skipFrom_gapped {ts : List Token} (h : ∀ t ∈ ts, t.valid = true) (before : Option Char) :
    skipFrom .gap before (gapped ts) = ⟨if ts.isEmpty then before else some ' ', write ts⟩ := by
  cases ts with
  | nil => rfl
  | cons t us =>
    have hspace : isGap ' ' = true := by decide
    rw [gapped_cons, skipFrom, if_pos hspace, skipFrom_write h]
    rfl

theorem Stands.start {ts : List Token} (h : ∀ t ∈ ts, t.valid = true) :
    Stands (Cursor.start (write ts)) ts := by
  have hskip : (Cursor.start (write ts)).skip = ⟨none, write ts⟩ := skipFrom_write h none
  exact ⟨h, by rw [hskip], fun _ => by rw [hskip]; rfl⟩

/-- Behind the first token stand the others. -/
theorem Stands.advance {c : Cursor} {t : Token} {us : List Token} (h : Stands c (t :: us)) :
    Stands (c.skip.advance t.spell.length) us := by
  have hvalid : ∀ u ∈ us, u.valid = true := fun u hu => h.valid u (List.mem_cons_of_mem _ hu)
  have hrest : (c.skip.advance t.spell.length).rest = gapped us := by
    simp [Cursor.advance, h.rest, write_cons]
  have hskip := skipFrom_gapped hvalid (c.skip.advance t.spell.length).before
  rw [← hrest] at hskip
  have hskip' : (c.skip.advance t.spell.length).skip = _ := hskip
  refine ⟨hvalid, by rw [hskip'], fun hne => ?_⟩
  rw [hskip', if_neg (by simpa using hne)]
  rfl

theorem Stands.head_valid {c : Cursor} {t : Token} {us : List Token} (h : Stands c (t :: us)) :
    t.valid = true :=
  h.valid t (List.mem_cons_self ..)

/-- A row of tokens is no longer than the text it stands for. -/
theorem length_le_length_write {ts : List Token} (h : ∀ t ∈ ts, t.valid = true) :
    ts.length ≤ (write ts).length := by
  induction ts with
  | nil => simp
  | cons t us ih =>
    obtain ⟨c, cs, hspell, -⟩ := head_spell (h t (List.mem_cons_self ..))
    have hus := ih fun u hu => h u (List.mem_cons_of_mem _ hu)
    have hgapped : (write us).length ≤ (gapped us).length := by
      cases us with
      | nil => simp
      | cons u us => simp
    rw [write_cons, hspell]
    simp only [List.length_cons, List.length_append]
    omega

/-- The rule reads one token, of which it makes what `f` says, and refuses every token of which `f`
makes nothing. -/
def Takes (p : Rule α) (f : Token → Option α) : Prop :=
  ∀ c ts, Stands c ts →
    match ts with
    | [] => p c = .no
    | t :: us =>
      match f t with
      | some a => ∃ c', p c = .ok a c' ∧ Stands c' us
      | none => p c = .no

/-- It is enough to look at one token, with nothing in front of it that could belong to a word. -/
theorem takes_of_skip {p : Rule α} {f : Token → Option α}
    (hnil : ∀ c : Cursor, c.skip.rest = [] → p c = .no)
    (hcons : ∀ (c : Cursor) (t : Token) (us : List Token), t.valid = true →
      c.skip.rest = t.spell ++ gapped us → c.skip.before.any isWordChar = false →
      p c = match f t with
        | some a => .ok a (c.skip.advance t.spell.length)
        | none => .no) : Takes p f := by
  intro c ts h
  cases ts with
  | nil => exact hnil c h.rest
  | cons t us =>
    have hrest : c.skip.rest = t.spell ++ gapped us := by rw [h.rest, write_cons]
    have hp := hcons c t us h.head_valid hrest (h.before (List.cons_ne_nil t us))
    simp only
    cases hf : f t with
    | none => simpa [hf] using hp
    | some a => exact ⟨_, by simpa [hf] using hp, h.advance⟩

end Kestrel.Written
