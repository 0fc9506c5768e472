import Kestrel.Proofs.Past.Under
import Kestrel.Proofs.Scopes.Apart

/-!
# Evaluation after a past

A past is a world in which something has happened already: scopes were made, text was printed and
traced. A computation that goes on after a past, on top of its scopes, does what it does from the
beginning. It neither sees nor changes anything of the past, and its values differ in the numbers of
their scopes only.

* `World.after` — a world after a past;
* `Eval.Carried` — a computation after a past, and the same from the beginning;
* `Node.carried_evalWithin` — evaluation after a past, in a scope that does not belong to it.
-/

namespace Kestrel

/-- The world after a past. -/
def World.after (past w : World) : World :=
  ⟨past.store.under w.store, past.output ++ w.output, past.trace ++ w.trace⟩

namespace Eval

variable {α β α' β' : Type} {past : World}

/-- After the past the second computation does what the first one does from the beginning, and gives
the same but for a change of form. -/
def Carried (past : World) (form : α → α') (m : Eval α) (m' : Eval α') : Prop :=
  ∀ w, m' (past.after w) = ((m w).1.map form, past.after (m w).2)

namespace Carried

/-! ### Elementary computations -/

theorem ofExcept (form : α → α') (r : Except Failure α) :
    Carried past form (ofExcept r) (ofExcept (r.map form)) := fun _ => rfl

theorem pure (form : α → α') (a : α) : Carried past form (pure a) (pure (form a)) := fun _ => rfl

theorem fail (form : α → α') (e : Failure) : Carried past form (fail e) (fail e) := fun _ => rfl

theorem bind {form : α → α'} {form' : β → β'} {m : Eval α} {m' : Eval α'} {f : α → Eval β}
    {f' : α' → Eval β'} (hm : Carried past form m m')
    (hf : ∀ a, Carried past form' (f a) (f' (form a))) :
    Carried past form' (m >>= f) (m' >>= f') := by
  intro w
  rw [bind_run, bind_run, hm w]
  rcases m w with ⟨e | a, w'⟩
  · rfl
  · exact hf a w'

theorem read {f f' : Store → α} (hf : ∀ s, f' (past.store.under s) = f s) :
    Carried past id (read f) (read f') :=
  fun w => congrArg (fun a => (Except.ok a, past.after w)) (hf w.store)

theorem traceLine (host : Host) {line line' : Store → String}
    (hline : ∀ s, line' (past.store.under s) = line s) :
    Carried past id (traceLine host line) (traceLine host line') := by
  intro w
  rw [Eval.traceLine, Eval.traceLine]
  split
  · simp only [World.after, hline, String.append_assoc]
    rfl
  · rfl

theorem note (host : Host) (scope : ScopeId) (message : String) :
    Carried past id (note host scope message) (note host (scope + past.store.size) message) :=
  traceLine host fun s => by rw [Store.depth_under]

theorem lookup (scope : ScopeId) (name : String) :
    Carried past (Value.shift past.store.size) (lookup scope name)
      (lookup (scope + past.store.size) name) := by
  intro w
  rw [Eval.lookup, Eval.lookup, World.after, Store.lookup?_under]
  cases w.store.lookup? scope name <;> rfl

theorem define (scope : ScopeId) (name : String) (v : Value) :
    Carried past id (define scope name v)
      (define (scope + past.store.size) name (v.shift past.store.size)) := by
  intro w
  simp only [Eval.define, Eval.modify, World.after, Store.define_under]
  rfl

theorem assign (scope : ScopeId) (name : String) (v : Value) :
    Carried past id (assign scope name v)
      (assign (scope + past.store.size) name (v.shift past.store.size)) := by
  intro w
  simp only [Eval.assign, Eval.modify, World.after, Store.assign_under]
  rfl

theorem newScope (parent : ScopeId) (bs : Bindings) :
    Carried past (· + past.store.size) (newScope parent bs)
      (newScope (parent + past.store.size) (bs.shift past.store.size)) := by
  intro w
  have hpush := past.store.push_under w.store (some parent) bs
  rw [Option.map_some] at hpush
  simp only [Eval.newScope, World.after, hpush, Store.size_under]
  rfl

/-! ### What is apart from the scopes -/

/-- A computation apart from the scopes is the same after a past, if what it gives stays as it is. -/
theorem of_apart {P : α → Prop} {form : α → α} {m m' : Eval α} (h : m.Apart P)
    (hform : ∀ a, P a → form a = a) (hm : m' = m) : Carried past form m m' := by
  obtain ⟨r, out, trace, hgives, hrun⟩ := h
  have hr : r.map form = r := by
    cases r with
    | error e => rfl
    | ok a => exact congrArg Except.ok (hform a (hgives a rfl))
  intro w
  rw [hm, hrun, hrun, hr]
  simp only [World.after, String.append_assoc]

/-- The same if it gives a value that holds no function. -/
theorem plain {k : Nat} {m m' : Eval Value} (h : m.Apart fun v => v.closures = []) (hm : m' = m) :
    Carried past (Value.shift k) m m' :=
  of_apart h (fun _ hv => Value.shift_of_closures_eq_nil k hv) hm

theorem condition (k : Nat) (construct : String) (v : Value) :
    Carried past id (condition construct v) (condition construct (v.shift k)) :=
  of_apart (.condition construct v) (fun _ _ => rfl) (by cases v <;> rfl)

theorem textsOf (k : Nat) (vs : List Value) :
    Carried past id (textsOf vs) (textsOf (vs.map (Value.shift k))) :=
  of_apart (.textsOf vs) (fun _ _ => rfl) (by rw [Eval.textsOf, Eval.textsOf, Value.texts?_map_shift])

theorem textOf (k : Nat) (v : Value) :
    Carried past id (Eval.ofExcept v.textOf) (Eval.ofExcept (v.shift k).textOf) :=
  of_apart (.ofExcept (P := fun _ => True) fun _ _ => True.intro) (fun _ _ => rfl)
    (by rw [Value.textOf_shift])

theorem binary (k : Nat) (op : BinaryOp) (x y : Value) :
    Carried past (Value.shift k) (Eval.ofExcept (op.apply x y))
      (Eval.ofExcept (op.apply (x.shift k) (y.shift k))) := by
  rw [BinaryOp.apply_shift]
  exact ofExcept _ _

theorem unary (k : Nat) (op : UnaryOp) (v : Value) :
    Carried past (Value.shift k) (Eval.ofExcept (op.apply v))
      (Eval.ofExcept (op.apply (v.shift k))) := by
  rw [UnaryOp.apply_shift]
  exact ofExcept _ _

theorem split (k : Nat) (x y : Value) :
    Carried past (Value.shift k) (Eval.ofExcept (Value.split x y))
      (Eval.ofExcept (Value.split (x.shift k) (y.shift k))) := by
  rw [Value.split_shift]
  exact ofExcept _ _

theorem contents (host : Host) (k : Nat) (path : Value) :
    Carried past (Value.shift k) (contents host path) (contents host (path.shift k)) :=
  plain (.contents host path) (by rw [Eval.contents, Eval.contents, Value.expectStr_shift])

theorem print (k : Nat) (v : Value) :
    Carried past (Value.shift k) (print v) (print (v.shift k)) :=
  plain (.print v) (by rw [Eval.print, Eval.print, Value.textOf_shift])

end Carried

end Eval

/-! ### Templates, loops and calls -/

/-- A placeholder is filled with the same text. -/
theorem Store.placeholderText_under (old s : Store) (scope : ScopeId) (inner : List Char) :
    Template.placeholderText (old.under s) (scope + old.size) inner =
      Template.placeholderText s scope inner := by
  have heval (f : Template.Formula) : f.eval (old.under s) (scope + old.size) =
      (f.eval s scope).map (Value.shift old.size) := by
    induction f with
    | int n => rfl
    | var name =>
      rw [Template.Formula.eval, Template.Formula.eval, lookup?_under]
      cases s.lookup? scope name <;> rfl
    | binary op l r ihl ihr =>
      rw [Template.Formula.eval, Template.Formula.eval, ihl, ihr]
      rcases l.eval s scope with e | x
      · rfl
      rcases r.eval s scope with e | y
      · rfl
      exact BinaryOp.apply_shift old.size op x y
  have hcontains : (old.under s).contains (scope + old.size) = s.contains scope :=
    funext fun name => contains_under old s scope name
  rw [Template.placeholderText, Template.placeholderText, hcontains]
  rcases Template.Formula.read (s.contains scope) inner with e | f
  · rfl
  simp only [heval]
  rcases f.eval s scope with e | v
  · rfl
  · exact Value.textOf_shift old.size v

namespace Eval.Carried

variable {past : World}

theorem segment (host : Host) (scope : ScopeId) (s : Template.Segment) :
    Carried past id (segment host scope s) (segment host (scope + past.store.size) s) := by
  cases s with
  | text chars => exact pure id _
  | placeholder inner =>
    refine bind (read fun s => past.store.placeholderText_under s scope inner) fun r => ?_
    rcases r with ⟨e | e⟩ | text
    · exact bind (note host scope _) fun _ => pure id _
    · exact fail id _
    · exact pure id text

theorem segments (host : Host) (scope : ScopeId) (ss : List Template.Segment) :
    Carried past id (segments host scope ss) (segments host (scope + past.store.size) ss) := by
  induction ss with
  | nil => exact pure id ""
  | cons s ss ih => exact bind (segment host scope s) fun _ => bind ih fun _ => pure id _

theorem template (host : Host) (scope : ScopeId) (text : String) (k : Nat) :
    Carried past (Value.shift k) (template host scope text)
      (template host (scope + past.store.size) text) :=
  bind (segments host scope _) fun _ => pure (Value.shift k) _

theorem forEach {k : Nat} {body body' : Int → Eval Value}
    (hbody : ∀ i, Carried past (Value.shift k) (body i) (body' i)) (count : Nat) (first : Int)
    (last : Value) :
    Carried past (Value.shift k) (forEach body count first last)
      (forEach body' count first (last.shift k)) := by
  induction count generalizing first last with
  | zero => exact pure _ last
  | succ count ih => exact bind (hbody first) fun v => ih (first + 1) v

theorem invoke {run run' : Runner} (hrun : ∀ scope n,
      Carried past (Value.shift past.store.size) (run scope n) (run' (scope + past.store.size) n))
    (params : List String) (body : Node) (home : ScopeId) (name : String) (args : List Value) :
    Carried past (Value.shift past.store.size) (invoke run params body home name args)
      (invoke run' params body (home + past.store.size) name
        (args.map (Value.shift past.store.size))) := by
  rw [Eval.invoke, Eval.invoke, List.length_map, Bindings.ofList_zip_shift]
  split
  · exact fail _ _
  · exact bind (newScope home _) fun scope => hrun scope body

end Eval.Carried

/-! ### Evaluation -/

section

variable {past : World} {run run' : Runner} (host : Host) (scope : ScopeId)

mutual

/-- After a past a node evaluates as it does from the beginning. -/
theorem Node.carried_evalWith (hrun : ∀ scope n, (run scope n).Carried past
    (Value.shift past.store.size) (run' (scope + past.store.size) n)) :
    (n : Node) →
    (n.evalWith host run scope).Carried past (Value.shift past.store.size)
      (n.evalWith host run' (scope + past.store.size))
  | .int _ | .str _ | .bool _ | .none => .pure _ _
  | .template text => .template host scope text _
  | .var name => .lookup scope name
  | .assign name e =>
    .bind (e.carried_evalWith hrun) fun v => .bind (.assign scope name v) fun _ =>
      .bind (.textOf _ v) fun _ => .bind (.note host scope _) fun _ => .pure _ v
  | .unary op e => .bind (e.carried_evalWith hrun) fun v => .unary _ op v
  | .print e => .bind (e.carried_evalWith hrun) fun v => .print _ v
  | .read e => .bind (e.carried_evalWith hrun) fun v => .contents host _ v
  | .binary op l r =>
    .bind (l.carried_evalWith hrun) fun x => .bind (r.carried_evalWith hrun) fun y =>
      .binary _ op x y
  | .split l r =>
    .bind (l.carried_evalWith hrun) fun x => .bind (r.carried_evalWith hrun) fun y => .split _ x y
  | .choice c t f | .ifElse c t f => by
    refine .bind (c.carried_evalWith hrun) fun v => .bind (.condition _ _ v) fun b => ?_
    cases b with
    | true => exact t.carried_evalWith hrun
    | false => exact f.carried_evalWith hrun
  | .forLoop name first last body => by
    refine .bind (first.carried_evalWith hrun) fun v => ?_
    cases v with
    | int a =>
      refine .bind (last.carried_evalWith hrun) fun v => ?_
      cases v with
      | int b =>
        refine .bind (.textsOf past.store.size [.int a, .int b]) fun _ => .bind (.note host scope _) fun _ => ?_
        refine .forEach (fun i => ?_) _ _ _
        exact .bind (.assign scope name (.int i)) fun _ => body.carried_evalWith hrun
      | _ => exact .pure _ _
    | _ => exact .pure _ _
  | .block ns => Node.carried_evalBlock hrun ns .none
  | .declare name params body =>
    .bind (.define scope name (.function params body scope name)) fun _ => .pure _ _
  | .call name args => by
    refine .bind (.lookup scope name) fun v => ?_
    cases v with
    | function params body home fname =>
      refine .bind (Node.carried_evalArgs hrun args) fun vs => .bind (.textsOf _ vs) fun _ => ?_
      exact .bind (.note host scope _) fun _ => .invoke hrun params body home fname vs
    | _ => exact .fail _ _

/-- The same for several statements. -/
theorem Node.carried_evalBlock (hrun : ∀ scope n, (run scope n).Carried past
    (Value.shift past.store.size) (run' (scope + past.store.size) n)) :
    (ns : List Node) → (last : Value) →
    (Node.evalBlock host run scope ns last).Carried past (Value.shift past.store.size)
      (Node.evalBlock host run' (scope + past.store.size) ns (last.shift past.store.size))
  | [], last => .pure _ last
  | n :: ns, _ =>
    .bind (.note host scope _) fun _ => .bind (n.carried_evalWith hrun) fun v =>
      Node.carried_evalBlock hrun ns v

/-- The same for several arguments. -/
theorem Node.carried_evalArgs (hrun : ∀ scope n, (run scope n).Carried past
    (Value.shift past.store.size) (run' (scope + past.store.size) n)) :
    (ns : List Node) →
    (Node.evalArgs host run scope ns).Carried past (List.map (Value.shift past.store.size))
      (Node.evalArgs host run' (scope + past.store.size) ns)
  | [] => .pure _ []
  | n :: ns =>
    .bind (n.carried_evalWith hrun) fun v => .bind (Node.carried_evalArgs hrun ns) fun vs =>
      .pure _ (v :: vs)

end

end

/-- After a past a node evaluates as it does from the beginning, however deep calls may lie inside each
other. -/
theorem Node.carried_evalWithin (past : World) (host : Host) (calls : Nat) (scope : ScopeId)
    (n : Node) :
    (n.evalWithin host calls scope).Carried past (Value.shift past.store.size)
      (n.evalWithin host calls (scope + past.store.size)) := by
  induction calls generalizing scope n with
  | zero => exact n.carried_evalWith host scope fun _ _ => .fail _ _
  | succ calls ih => exact n.carried_evalWith host scope ih

/-- The same for a whole program. -/
theorem carried_evalProgram (past : World) (host : Host) (scope : ScopeId)
    (statements : List Node) :
    (evalProgram host scope statements).Carried past (Value.shift past.store.size)
      (evalProgram host (scope + past.store.size) statements) :=
  .bind (.traceLine host fun _ => rfl) fun _ =>
    Node.carried_evalWithin past host host.calls scope (.block statements)

end Kestrel
