import Kestrel.Proofs.Machine.Performs

/-!
# Programs without calls halt

The machine has no bound on anything. It halts with the outcome of an evaluation, unless the evaluation
ran out of calls; and where nothing is called, there is nothing to run out of. That bounds are computed
before the first turn of a loop and that a formula has no calls is part of what the machine performs.

* `Performs.halts` — the machine halts where nothing is left out of the account;
* `halts_of_ne_stackFull` — any program;
* `halts_of_callFree` — a program without calls.
-/

namespace Kestrel

open StateTransition

namespace Machine

variable {host : Host}

theorem exists_run_of_reaches {s t : State} (h : Reaches (step host) s t) :
    ∃ steps, run host steps s = t := by
  induction h using Relation.ReflTransGen.head_induction_on with
  | refl => exact ⟨0, rfl⟩
  | head hstep _ ih =>
    obtain ⟨steps, hsteps⟩ := ih
    refine ⟨steps + 1, ?_⟩
    rw [run, Option.mem_def.mp hstep]
    exact hsteps

/-- With an outcome and no task left there is no step. -/
theorem step_halted (r : Except Failure Value × World) : step host (.halted r) = none := by
  rcases r with ⟨_ | _, _⟩ <;> rfl

theorem eval_halted (r : Except Failure Value × World) :
    eval (step host) (.halted r) = Part.some (.halted r) :=
  Part.eq_some_iff.mpr (mem_eval.mpr ⟨.refl, step_halted r⟩)

theorem State.halted_injective : Function.Injective State.halted := by
  rintro ⟨r, w⟩ ⟨r', w'⟩ h
  rcases r with _ | _ <;> rcases r' with _ | _ <;> cases h <;> rfl

/-- Where nothing is left out of the account, the machine halts. -/
theorem Performs.halts {E : Failure → Prop} {scope : ScopeId} {n : Node} {m : Eval Value}
    (h : Performs host E (begin host scope n) m) {w : World}
    (hleft : ∀ e, (m w).1 = .error e → ¬ E e) :
    eval (step host) (.start scope n w) = Part.some (.halted (m w)) := by
  obtain ⟨e, he, hE⟩ | hdone := h [] w
  · exact absurd hE (hleft e he)
  · calc eval (step host) (.start scope n w)
      _ = eval (step host) (.after (begin host scope n) [] w) := eval_eq_of_step rfl
      _ = eval (step host) (.halted (m w)) := hdone
      _ = Part.some (.halted (m w)) := eval_halted (m w)

/-- The machine performs every evaluation, except that an evaluation can run out of calls. -/
theorem performs_evalWithin (calls : Nat) (scope : ScopeId) (n : Node) :
    Performs host (· = .fault .stackFull) (begin host scope n) (n.evalWithin host calls scope) := by
  induction calls generalizing scope n with
  | zero =>
    refine performs_evalWith scope n (.inr fun scope body tasks w => ?_)
    exact .inl ⟨_, rfl, rfl⟩
  | succ calls ih => exact performs_evalWith scope n (.inr ih)

/-- Where nothing is called, an evaluation cannot run out of calls. -/
theorem performs_evalWithin_of_callFree {n : Node} (h : n.CallFree) (calls : Nat) (scope : ScopeId) :
    Performs host (fun _ => False) (begin host scope n) (n.evalWithin host calls scope) := by
  cases calls with
  | zero => exact performs_evalWith scope n (.inl h)
  | succ calls => exact performs_evalWith scope n (.inl h)

theorem exists_run_of_eval {s t : State} (h : eval (step host) s = Part.some t) :
    ∃ steps, run host steps s = t :=
  exists_run_of_reaches (mem_eval.mp (Part.eq_some_iff.mp h)).1

/-- Any program: the machine halts with the outcome of the evaluation, unless that ran out of calls. -/
theorem halts_of_ne_stackFull {calls : Nat} {scope : ScopeId} {n : Node} {w : World}
    (h : (n.evalWithin host calls scope w).1 ≠ .error (.fault .stackFull)) :
    ∃ steps, run host steps (.start scope n w) = .halted (n.evalWithin host calls scope w) := by
  refine exists_run_of_eval ((performs_evalWithin calls scope n).halts fun e he hE => h ?_)
  rw [he, hE]

/-- A program without calls: from every world the machine comes after finitely many steps to an outcome,
a value or a failure, and stops there. Evaluation has that outcome, however few calls it may make. -/
theorem halts_of_callFree {n : Node} (h : n.CallFree) (host : Host) (scope : ScopeId) (w : World) :
    ∃ (r : Except Failure Value) (w' : World),
      (∃ steps, run host steps (.start scope n w) = .halted (r, w')) ∧
      step host (.halted (r, w')) = none ∧
      ∀ calls, n.evalWithin host calls scope w = (r, w') := by
  have heval (calls : Nat) :
      eval (step host) (.start scope n w) = Part.some (.halted (n.evalWithin host calls scope w)) :=
    (performs_evalWithin_of_callFree h calls scope).halts fun _ _ => id
  refine ⟨_, _, exists_run_of_eval (heval 0), step_halted _, fun calls => ?_⟩
  exact State.halted_injective (Part.some_injective ((heval calls).symm.trans (heval 0)))

/-- Loops whose bodies reassign the names of the loops and those in the bounds, in a scope that binds a
function that would call itself for ever. -/
theorem halts_of_callFree_loops :
    let n : Node := .forLoop "i" (.int 1) (.var "n") (.block [
      .assign "i" (.int 10), .assign "n" (.int 100), .declare "g" [] (.var "i"),
      .forLoop "j" (.var "i") (.var "n") (.block [
        .assign "n" (.int 0), .assign "j" (.var "n"), .print (.template "$\x7bf\x7d $\x7bn-j\x7d")])])
    let w : World := ⟨Store.root [("n", .int 3), ("f", .function [] (.call "f" []) 0 "f")], "", ""⟩
    let host : Host := ⟨Files.empty, false, .ofCalls 1000⟩
    n.CallFree ∧ ∃ (r : Except Failure Value) (w' : World),
      (∃ steps, run host steps (.start 0 n w) = .halted (r, w')) ∧
      step host (.halted (r, w')) = none ∧ ∀ calls, n.evalWithin host calls 0 w = (r, w') := by
  intro n w host
  have hfree : n.CallFree := by simp [n, Node.CallFree, Node.findAll_eq, Node.children, Node.label]
  exact ⟨hfree, halts_of_callFree hfree host 0 w⟩

end Machine

end Kestrel
