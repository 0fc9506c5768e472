import Kestrel.Reader.Cursor

/-!
# Reading rules

A rule reads something at a position. It may match, and then gives what it read and the position
after it; it may fail to match, and then another rule may be tried at the same position; or it may
stop the reading altogether.

* `Parsed`, `Rule` — the outcome of a rule, and rules, a monad;
* `Rule.orElse` — the first rule that matches;
* `Rule.optional`, `Rule.many`, `Rule.commaList` — a rule once or not at all, as often as it matches,
  and between commas.

Repetitions count down from a bound. A text gives a bound that is never reached; if it were, the
outcome would be `Halt.exhausted` and never a wrong tree.
-/

namespace Kestrel.Reader

/-- What stops the reading for good. -/
inductive Halt where
  /-- an integer has too many digits -/
  | tooManyDigits
  /-- a bound on the number of steps was reached -/
  | exhausted
  deriving DecidableEq, Repr

/-- The outcome of a rule at a position. -/
inductive Parsed (α : Type) where
  /-- the rule matches -/
  | ok (value : α) (rest : Cursor)
  /-- the rule does not match -/
  | no
  /-- the reading stops -/
  | halt (reason : Halt)
  deriving DecidableEq, Repr

/-- A rule. -/
def Rule (α : Type) : Type := Cursor → Parsed α

namespace Rule

variable {α β : Type}

/-- The rule that reads nothing. -/
@[inline] protected def pure (a : α) : Rule α := fun c => .ok a c

/-- One rule after another. -/
@[inline] protected def bind (p : Rule α) (f : α → Rule β) : Rule β := fun c =>
  match p c with
  | .ok a c' => f a c'
  | .no => .no
  | .halt h => .halt h

instance : Monad Rule where
  pure := Rule.pure
  bind := Rule.bind

@[simp] theorem pure_run (a : α) (c : Cursor) : (pure a : Rule α) c = .ok a c := rfl

theorem bind_run (p : Rule α) (f : α → Rule β) (c : Cursor) :
    (p >>= f) c =
      match p c with
      | .ok a c' => f a c'
      | .no => .no
      | .halt h => .halt h := rfl

/-- The rule that never matches. -/
def fail : Rule α := fun _ => .no

/-- The rule that stops the reading. -/
def stop (h : Halt) : Rule α := fun _ => .halt h

/-- The first rule, or the second one if the first does not match. -/
def orElse (p q : Rule α) : Rule α := fun c =>
  match p c with
  | .no => q c
  | r => r

/-- The first one of several rules that matches. -/
def oneOf : List (Rule α) → Rule α
  | [] => fail
  | p :: ps => orElse p (oneOf ps)

/-- A rule, or nothing if it does not match. -/
def optional (p : Rule α) : Rule (Option α) :=
  orElse (do let a ← p; pure (some a)) (pure none)

/-- A rule as often as it matches. -/
def many (p : Rule α) : (bound : Nat) → Rule (List α)
  | 0 => stop .exhausted
  | bound + 1 =>
    orElse (do
      let a ← p
      let as ← many p bound
      pure (a :: as)) (pure [])

end Rule

end Kestrel.Reader
