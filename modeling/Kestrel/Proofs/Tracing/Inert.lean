import Mathlib.Algebra.Group.Int.Defs
import Kestrel.Proofs.Tracing.Muted
import Kestrel.Session

/-!
# What is noted when no trace is kept

Where no trace is kept, nothing is added to it. But the texts for it are put together even then, at the
place where they would be shown, and a value that has no text is a failure there. Such failures are all
that tells evaluation from evaluation without any notes.

* `Node.evalWithin_eq_unnoted` — the two agree, unless a numeral has too many digits;
* `Node.evalWithin_ne_unnoted` — a program for which they do not.
-/

namespace Kestrel

/-- Where no trace is kept it stays as it is. -/
theorem Node.trace_evalWithin_off (files : Files) (stack : Stack) (calls : Nat) (scope : ScopeId)
    (n : Node) (w : World) :
    (n.evalWithin ⟨files, false, stack⟩ calls scope w).2.trace = w.trace := by
  have hmuted := n.muted_evalWithin (fun _ => False) ⟨files, false, stack⟩ calls scope
  exact congrArg (·.2.trace) (hmuted.run w w.trace).same

/-- Where no trace is kept, the value or the failure, the scopes and the output are those of an
evaluation that notes nothing and puts no text for it together, except that a numeral with too many
digits may end the evaluation. -/
theorem Node.evalWithin_eq_unnoted (files : Files) (stack : Stack) (calls : Nat) (scope : ScopeId)
    (n : Node) (w : World) :
    n.evalWithin ⟨files, false, stack⟩ calls scope w =
        n.evalNotingWithin .none ⟨files, false, stack⟩ calls scope w ∨
      (n.evalWithin ⟨files, false, stack⟩ calls scope w).1 = .error (.fault .tooManyDigits) := by
  have hmuted := n.muted_evalNotingWithin (Notes.muted_none ⟨files, false, stack⟩)
    (rfl : (Host.mk files false stack).files = files) calls scope w w.trace
  rw [Node.evalNotingWithin_kept] at hmuted
  obtain ⟨_, he, rfl⟩ | hmuted := hmuted
  · exact .inr he
  · have hsame := hmuted.same
    rw [World.withTrace_self] at hsame
    rw [hsame, ← n.trace_evalWithin_off files stack calls scope w]
    exact .inl rfl

/-! ### An argument that has no text -/

/-- A function declared in a fresh store is found there. -/
theorem Session.lookup?_define_freshStore (name : String) (v : Value) :
    (Session.freshStore.define Session.globalScope name v).lookup? Session.globalScope name =
      some v := by
  have hchain : Session.freshStore.chain Session.globalScope = [Session.globalScope] := by
    rw [Store.chain]
    rfl
  have hbindings : (Session.freshStore.define Session.globalScope name v).bindings
      Session.globalScope = [(name, v)] := by
    rw [Store.bindings_define]
    rfl
  simp [Store.lookup?, Store.owner?, hchain, hbindings, Bindings.binds]

/-- A program that calls a function with the square of an integer. The function does not look at it. -/
def squarePassed (m : Int) : Node :=
  .block [.declare "f" ["n"] (.block [.int 1]), .call "f" [.binary .mul (.int m) (.int m)]]

section

variable {m : Int} (files : Files) (stack : Stack)

/-- The call fails for want of a text that is shown nowhere. -/
theorem evalWithin_squarePassed (h : Text.numeral? (m * m) = none) :
    ((squarePassed m).evalWithin ⟨files, false, stack⟩ 1 Session.globalScope
      ⟨Session.freshStore, "", ""⟩).1 = .error (.fault .tooManyDigits) := by
  have htexts : Eval.textsOf [.int (m * m)] = Eval.fail (.fault .tooManyDigits) := by
    rw [Eval.textsOf, Value.texts?, Value.text?, h]
  simp [squarePassed, Node.evalWithin, Node.evalWith, Node.evalBlock, Node.evalArgs, Eval.bind_run,
    Eval.note, Eval.traceLine, Eval.define, Eval.modify, Eval.lookup,
    Session.lookup?_define_freshStore, Eval.ofExcept, BinaryOp.apply, htexts, Eval.fail]

/-- Without notes it has a value. -/
theorem evalNotingWithin_squarePassed :
    ((squarePassed m).evalNotingWithin .none ⟨files, false, stack⟩ 1 Session.globalScope
      ⟨Session.freshStore, "", ""⟩).1 = .ok (.int 1) := by
  simp [squarePassed, Node.evalNotingWithin, Node.evalNoting, Node.evalBlockNoting,
    Node.evalArgsNoting, Notes.none, Eval.bind_run, Eval.define, Eval.modify, Eval.lookup,
    Session.lookup?_define_freshStore, Eval.ofExcept, BinaryOp.apply, Eval.invoke, Eval.newScope]

end

/-- A program that fails only because of a text that is shown nowhere. -/
theorem Node.evalWithin_ne_unnoted :
    ((squarePassed (10 ^ 2150)).evalWithin ⟨Files.empty, false, .ofCalls 1000⟩ 1
        Session.globalScope ⟨Session.freshStore, "", ""⟩).1 = .error (.fault .tooManyDigits) ∧
      ((squarePassed (10 ^ 2150)).evalNotingWithin .none ⟨Files.empty, false, .ofCalls 1000⟩ 1
        Session.globalScope ⟨Session.freshStore, "", ""⟩).1 = .ok (.int 1) := by
  have hlarge : Text.numeral? (10 ^ 2150 * 10 ^ 2150) = Option.none := by decide +kernel
  exact ⟨evalWithin_squarePassed Files.empty _ hlarge, evalNotingWithin_squarePassed Files.empty _⟩

end Kestrel
