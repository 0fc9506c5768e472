import Kestrel.Proofs.Scopes.Keeps
import Mathlib.Logic.Relation

/-!
# Evaluation changes the scopes one write at a time

Whatever an evaluation does, and wherever it is broken off, all that happens to the scopes is that names
are given values and that scopes are made. So what no single write can destroy, no evaluation destroys.

* `Store.Change`, `Store.Changes` — one write, and any number of them;
* `Eval.Changes` — a computation that does nothing else to the scopes;
* `Node.changes_evalWithin` — evaluation is such a computation.
-/

namespace Kestrel

/-- One write to the scopes. -/
inductive Store.Change (s : Store) : Store → Prop where
  /-- a name was given a value in a scope -/
  | define (i : ScopeId) (name : String) (value : Value) : Change s (s.define i name value)
  /-- a scope was made inside another one -/
  | push (parent : ScopeId) (bindings : Bindings) : Change s (s.push (some parent) bindings)

/-- Any number of writes, one after another. -/
def Store.Changes : Store → Store → Prop := Relation.ReflTransGen Store.Change

namespace Eval

variable {α β : Type}

/-- All that the computation does to the scopes is to write to them, whether it fails or not. -/
def Changes (m : Eval α) : Prop := ∀ w : World, w.store.Changes (m w).2.store

namespace Changes

/-! ### Elementary computations -/

theorem of_quiet {m : Eval α} {P : α → Prop} (h : m.Quiet P) : m.Changes := by
  intro w
  rw [(h w).1]
  exact .refl

theorem of_apart {m : Eval α} {P : α → Prop} (h : m.Apart P) : m.Changes :=
  of_quiet (.of_apart h)

theorem pure (a : α) : Changes (pure a) := of_apart (P := fun _ => True) (.pure True.intro)

theorem fail (e : Failure) : Changes (fail e : Eval α) := of_apart (P := fun _ => True) (.fail e)

theorem ofExcept (r : Except Failure α) : (ofExcept r).Changes :=
  of_apart (P := fun _ => True) (.ofExcept fun _ _ => True.intro)

theorem bind {m : Eval α} {f : α → Eval β} (hm : m.Changes) (hf : ∀ a, (f a).Changes) :
    (m >>= f).Changes := by
  intro w
  have hfirst := hm w
  rw [bind_run]
  rcases hw : m w with ⟨_ | a, w'⟩
  · rw [hw] at hfirst
    exact hfirst
  · rw [hw] at hfirst
    exact hfirst.trans (hf a w')

theorem lookup (scope : ScopeId) (name : String) : (lookup scope name).Changes := by
  intro w
  rw [Eval.lookup]
  split <;> exact .refl

theorem define (scope : ScopeId) (name : String) (v : Value) : (define scope name v).Changes :=
  fun _ => .single (.define scope name v)

theorem assign (scope : ScopeId) (name : String) (v : Value) : (assign scope name v).Changes :=
  fun _ => .single (.define _ name v)

theorem newScope (parent : ScopeId) (bindings : Bindings) : (newScope parent bindings).Changes :=
  fun _ => .single (.push parent bindings)

/-! ### Loops and calls -/

theorem forEach {body : Int → Eval Value} (hbody : ∀ i, (body i).Changes) (count : Nat) (first : Int)
    (last : Value) : (forEach body count first last).Changes := by
  induction count generalizing first last with
  | zero => exact pure last
  | succ count ih => exact bind (hbody first) fun v => ih (first + 1) v

theorem invoke {run : Runner} (hrun : ∀ scope n, (run scope n).Changes) (params : List String)
    (body : Node) (home : ScopeId) (name : String) (args : List Value) :
    (invoke run params body home name args).Changes := by
  rw [Eval.invoke]
  split
  · exact fail _
  · exact bind (newScope home _) fun scope => hrun scope body

end Changes

end Eval

/-! ### Evaluation -/

section

variable (host : Host) {run : Runner} (scope : ScopeId)

mutual

/-- If the bodies of called functions do nothing else to the scopes, no node does. -/
theorem Node.changes_evalWith (hrun : ∀ scope n, (run scope n).Changes) :
    (n : Node) → (n.evalWith host run scope).Changes
  | .int _ | .str _ | .bool _ | .none => .pure _
  | .template text => .of_quiet (.template host scope text)
  | .var name => .lookup scope name
  | .assign name e =>
    .bind (e.changes_evalWith hrun) fun v => .bind (.assign scope name v) fun _ =>
      .bind (.ofExcept _) fun _ => .bind (.of_quiet (.note host scope _)) fun _ => .pure v
  | .unary _ e => .bind (e.changes_evalWith hrun) fun _ => .ofExcept _
  | .print e => .bind (e.changes_evalWith hrun) fun v => .of_apart (.print v)
  | .read e => .bind (e.changes_evalWith hrun) fun v => .of_apart (.contents host v)
  | .binary _ l r | .split l r =>
    .bind (l.changes_evalWith hrun) fun _ => .bind (r.changes_evalWith hrun) fun _ => .ofExcept _
  | .choice c t f | .ifElse c t f => by
    refine .bind (c.changes_evalWith hrun) fun v => .bind (.of_apart (.condition _ v)) fun b => ?_
    split
    · exact t.changes_evalWith hrun
    · exact f.changes_evalWith hrun
  | .forLoop name first last body => by
    refine .bind (first.changes_evalWith hrun) fun v => ?_
    split
    · refine .bind (last.changes_evalWith hrun) fun v => ?_
      split
      · refine .bind (.of_apart (.textsOf _)) fun _ => .bind (.of_quiet (.note host scope _)) fun _ => ?_
        refine .forEach (fun i => ?_) _ _ _
        exact .bind (.assign scope name (.int i)) fun _ => body.changes_evalWith hrun
      · exact .pure _
    · exact .pure _
  | .block ns => Node.changes_evalBlock hrun ns .none
  | .declare name _ _ => .bind (.define scope name _) fun _ => .pure _
  | .call name args => by
    refine .bind (.lookup scope name) fun v => ?_
    split
    · refine .bind (Node.changes_evalArgs hrun args) fun vs => ?_
      refine .bind (.of_apart (.textsOf vs)) fun _ => ?_
      exact .bind (.of_quiet (.note host scope _)) fun _ => .invoke hrun _ _ _ _ vs
    · exact .fail _

/-- The same for several statements. -/
theorem Node.changes_evalBlock (hrun : ∀ scope n, (run scope n).Changes) :
    (ns : List Node) → (last : Value) →
    (Node.evalBlock host run scope ns last).Changes
  | [], last => .pure last
  | n :: ns, _ =>
    .bind (.of_quiet (.note host scope _)) fun _ => .bind (n.changes_evalWith hrun) fun v =>
      Node.changes_evalBlock hrun ns v

/-- The same for several arguments. -/
theorem Node.changes_evalArgs (hrun : ∀ scope n, (run scope n).Changes) :
    (ns : List Node) → (Node.evalArgs host run scope ns).Changes
  | [] => .pure []
  | n :: ns =>
    .bind (n.changes_evalWith hrun) fun _ => .bind (Node.changes_evalArgs hrun ns) fun _ => .pure _

end

end

/-- Evaluation does nothing to the scopes but to write to them, however deep calls may lie inside each
other. -/
theorem Node.changes_evalWithin (host : Host) (calls : Nat) (scope : ScopeId) (n : Node) :
    (n.evalWithin host calls scope).Changes := by
  induction calls generalizing scope n with
  | zero => exact n.changes_evalWith host scope fun _ _ => .fail _
  | succ calls ih => exact n.changes_evalWith host scope ih

end Kestrel
