import Kestrel.Proofs.Scopes.Closure

/-!
# Computations apart from the scopes

Operators, conditions and built-in functions neither look at the scopes nor change them: all they do is
to give a value or a failure and to print. What they give holds no function.

* `Eval.Apart` — a computation that has nothing to do with the scopes;
* `Eval.Apart.condition`, `Eval.Apart.print` and others — those of evaluation.
-/

namespace Kestrel.Eval

variable {α β : Type} {P : α → Prop} {Q : β → Prop}

/-- Whatever the world is, the computation gives the same and adds the same to what was printed and
traced, and what it gives has the property. -/
def Apart (m : Eval α) (P : α → Prop) : Prop :=
  ∃ r out trace, (∀ a, r = .ok a → P a) ∧
    ∀ w, m w = (r, ⟨w.store, w.output ++ out, w.trace ++ trace⟩)

namespace Apart

theorem ofExcept {r : Except Failure α} (hr : ∀ a, r = .ok a → P a) : (ofExcept r).Apart P :=
  ⟨r, "", "", hr, fun w => by simp [Eval.ofExcept]⟩

theorem pure {a : α} (ha : P a) : (pure a : Eval α).Apart P := by
  refine ofExcept (r := .ok a) ?_
  rintro _ ⟨⟩
  exact ha

theorem fail (e : Failure) : (fail e).Apart P := ofExcept (r := .error e) nofun

theorem bind {m : Eval α} {f : α → Eval β} (hm : m.Apart P) (hf : ∀ a, P a → (f a).Apart Q) :
    (m >>= f).Apart Q := by
  obtain ⟨r, out, trace, hgives, hm⟩ := hm
  cases r with
  | error e => exact ⟨.error e, out, trace, nofun, fun w => by rw [bind_run, hm]⟩
  | ok a =>
    obtain ⟨r', out', trace', hgives', hf⟩ := hf a (hgives a rfl)
    refine ⟨r', out ++ out', trace ++ trace', hgives', fun w => ?_⟩
    rw [bind_run, hm]
    simp only [hf, String.append_assoc]

theorem write (text : String) : (write text).Apart fun _ => True :=
  ⟨.ok (), text, "", fun _ _ => True.intro, fun w => by simp [Eval.write]⟩

theorem condition (construct : String) (v : Value) :
    (condition construct v).Apart fun _ => True := by
  cases v with
  | bool b => exact pure True.intro
  | _ => exact fail _

theorem textsOf (vs : List Value) : (textsOf vs).Apart fun _ => True := by
  rw [Eval.textsOf]
  split
  · exact pure True.intro
  · exact fail _

/-- A file gives a text. -/
theorem contents (host : Host) (path : Value) :
    (contents host path).Apart fun v => v.closures = [] := by
  refine bind (P := fun _ => True) (ofExcept fun _ _ => True.intro) fun path _ => ?_
  split
  · exact fail _
  · exact fail _
  · exact pure rfl

theorem print (v : Value) : (print v).Apart fun v => v.closures = [] := by
  refine bind (P := fun _ => True) (ofExcept fun _ _ => True.intro) fun text _ => ?_
  exact bind (write _) fun _ _ => pure rfl

/-- An operator gives no function. -/
theorem binary (op : BinaryOp) (x y : Value) :
    (Eval.ofExcept (op.apply x y)).Apart fun v => v.closures = [] :=
  ofExcept fun _ => BinaryOp.closures_apply

theorem unary (op : UnaryOp) (x : Value) :
    (Eval.ofExcept (op.apply x)).Apart fun v => v.closures = [] :=
  ofExcept fun _ => UnaryOp.closures_apply

theorem split (x y : Value) : (Eval.ofExcept (Value.split x y)).Apart fun v => v.closures = [] :=
  ofExcept fun _ => Value.closures_split

end Apart

end Kestrel.Eval
