import Kestrel.Proofs.Machine.Basic
import Kestrel.Syntax.Search
import Mathlib.Computability.StateTransition

/-!
# What the machine performs

Evaluation as it is defined goes along the tree. The machine does the same in small steps, whatever
tasks wait below: it comes from the start of a node to the outcome of its evaluation. Where the body of
a called function is not accounted for, because it is run by other means or not at all, neither is its
failure.

* `Node.CallFree` — nothing is called in the tree;
* `Performs` — from a move on, the machine comes to the outcome of a computation;
* `Performs.bind`, `Performs.handle`, `Performs.evaluate` and others — the ways to build moves;
* `performs_formula`, `performs_fill` — formulas, in which nothing is called, and templates;
* `performs_turn` — loops, by induction on the number of turns;
* `performs_evalWith` — nodes.
-/

namespace Kestrel

/-- No function is called in the tree, nor in the body of a function that it declares. -/
def Node.CallFree (n : Node) : Prop := n.findAll (·.label = "Invoke") = []

theorem Node.CallFree.child {n m : Node} (h : n.CallFree) (hm : m ∈ n.children) : m.CallFree := by
  rw [CallFree, findAll_eq, List.append_eq_nil_iff, List.flatMap_eq_nil_iff] at h
  exact h.2 m hm

theorem Node.CallFree.ne_call {n : Node} (h : n.CallFree) (name : String) (args : List Node) :
    n ≠ .call name args := by
  rintro rfl
  rw [CallFree, findAll_eq, List.append_eq_nil_iff] at h
  exact absurd h.1 (List.cons_ne_nil _ _)

namespace Machine

open StateTransition Template

variable {α : Type} {host : Host} {E : Failure → Prop}

/-- The state at the outcome of a computation, above the given tasks. -/
def State.done (m : Eval Value) (tasks : List Task) (w : World) : State :=
  ⟨.ofExcept (m w).1, tasks, (m w).2⟩

/-- After the move the machine comes to the outcome of the computation, whatever tasks wait. Failures
that satisfy `E` are left out of the account. -/
def Performs (host : Host) (E : Failure → Prop) (move : Eval Move) (m : Eval Value) : Prop :=
  ∀ tasks w, (∃ e, (m w).1 = .error e ∧ E e) ∨
    eval (step host) (.after move tasks w) = eval (step host) (.done m tasks w)

theorem eval_eq_of_step {s t : State} (h : step host s = some t) :
    eval (step host) s = eval (step host) t :=
  reaches_eval (.single h)

/-- What comes of an outcome where there is no use for a failure. -/
def passOn (f : Value → Eval Value) : Except Failure Value → Eval Value
  | .ok v => f v
  | .error e => Eval.fail e

theorem bind_eq_passOn (m : Eval Value) (f : Value → Eval Value) :
    (m >>= f) = fun w => passOn f (m w).1 (m w).2 := by
  funext w
  rw [Eval.bind_run]
  rcases m w with ⟨_ | v, w'⟩ <;> rfl

namespace Performs

variable {move : Eval Move} {m : Eval Value}

theorem give (v : Value) : Performs host E (give v) (pure v) :=
  fun _ _ => .inr rfl

theorem fail (e : Failure) : Performs host E (Eval.fail e) (Eval.fail e) :=
  fun _ _ => .inr rfl

/-- A computation of its own, before the move. -/
theorem bind {x : Eval α} {f : α → Eval Move} {g : α → Eval Value}
    (h : ∀ a, Performs host E (f a) (g a)) : Performs host E (x >>= f) (x >>= g) := by
  intro tasks w
  rw [State.after, State.done, Eval.bind_run, Eval.bind_run]
  rcases x w with ⟨e | a, w'⟩
  · exact .inr rfl
  · exact h a tasks w'

theorem finish (m : Eval Value) : Performs host E (finish m) m := by
  have h : Performs host E (Machine.finish m) (m >>= fun v => pure v) := bind give
  rwa [Eval.bind_pure] at h

section Evaluate

variable {scope : ScopeId} {n : Node}

theorem goOn (hn : Performs host E (begin host scope n) m) : Performs host E (goOn scope n) m := by
  intro tasks w
  refine (hn tasks w).imp_right fun h => ?_
  rw [← h]
  exact eval_eq_of_step rfl

/-- A node for a task that knows what to do with every outcome. Only what is left out of the account for
the node may be left out at the task. -/
theorem handle {E' : Failure → Prop} {task : Task} {k : Except Failure Value → Eval Value}
    (hn : Performs host E' (begin host scope n) m)
    (hresume : ∀ v, Performs host E (resume host task v) (k (.ok v)))
    (hunwind : ∀ e, Performs host E (unwind host task e) (k (.error e)))
    (hleft : ∀ e w, E' e → ∃ e', (k (.error e) w).1 = .error e' ∧ E e') :
    Performs host E (evaluate scope n task) fun w => k (m w).1 (m w).2 := by
  intro tasks w
  have hstart : eval (step host) (.after (evaluate scope n task) tasks w) =
      eval (step host) (.after (begin host scope n) (task :: tasks) w) := eval_eq_of_step rfl
  obtain ⟨e, he, hE⟩ | hm := hn (task :: tasks) w
  · left
    simp only [he]
    exact hleft e (m w).2 hE
  · rw [hstart, hm]
    simp only [State.done]
    rcases (m w).1 with e | v
    · refine (hunwind e tasks (m w).2).imp_right fun h => ?_
      exact (eval_eq_of_step rfl).trans h
    · refine (hresume v tasks (m w).2).imp_right fun h => ?_
      exact (eval_eq_of_step rfl).trans h

/-- A node for a task that has no use for a failure. -/
theorem evaluate {task : Task} {f : Value → Eval Value}
    (hn : Performs host E (begin host scope n) m)
    (hresume : ∀ v, Performs host E (resume host task v) (f v))
    (hunwind : ∀ e, unwind host task e = Eval.fail e) :
    Performs host E (evaluate scope n task) (m >>= f) := by
  rw [bind_eq_passOn]
  refine handle hn hresume (fun e => ?_) fun e w hE => ⟨e, rfl, hE⟩
  rw [hunwind]
  exact fail e

end Evaluate

end Performs

/-! ### Templates -/

section Templates

variable (host : Host) (scope : ScopeId)

/-- The value of a formula as a computation. -/
def valueOf (f : Formula) : Eval Value := fun w => (f.eval w.store scope, w)

theorem valueOf_var (name : String) : valueOf scope (.var name) = Eval.lookup scope name := by
  funext w
  rw [valueOf, Formula.eval, Eval.lookup]
  rcases w.store.lookup? scope name with _ | v <;> rfl

theorem valueOf_binary (op : BinaryOp) (l r : Formula) :
    valueOf scope (.binary op l r) = (do
      let x ← valueOf scope l
      let y ← valueOf scope r
      Eval.ofExcept (op.apply x y)) := by
  funext w
  rw [Eval.bind_run, valueOf, valueOf, Formula.eval]
  rcases l.eval w.store scope with _ | x
  · rfl
  · dsimp only
    rw [Eval.bind_run, valueOf]
    rcases r.eval w.store scope with _ | y <;> rfl

/-- Nothing is called in a formula, so nothing is left out of the account. -/
theorem performs_formula (f : Formula) :
    Performs host (fun _ => False) (begin host scope f.toNode) (valueOf scope f) := by
  induction f with
  | int value => exact .give _
  | var name =>
    rw [valueOf_var]
    exact .finish _
  | binary op l r ihl ihr =>
    rw [valueOf_binary]
    exact .evaluate ihl (fun x => .evaluate ihr (fun y => .finish _) fun _ => rfl) fun _ => rfl

/-- Shows the outcome of a formula in the place of its placeholder. -/
def showOutcome (inner : List Char) (r : Except Failure Value) : Eval String :=
  shown host scope inner (r.bind Value.textOf)

theorem segment_run (inner : List Char) (w : World) :
    Eval.segment host scope (.placeholder inner) w =
      shown host scope inner (placeholderText w.store scope inner) w := by
  rw [Eval.segment, Eval.bind_run, Eval.read]
  rcases placeholderText w.store scope inner with (_ | _) | _ <;> rfl

/-- A placeholder in two stages: its formula is read, and then the outcome of the formula is shown. -/
theorem segment_placeholder (inner : List Char) :
    Eval.segment host scope (.placeholder inner) =
      (Eval.read fun s => Formula.read (s.contains scope) inner) >>= fun
        | .error e => showOutcome host scope inner (.error e)
        | .ok formula => fun w =>
          showOutcome host scope inner (valueOf scope formula w).1 (valueOf scope formula w).2 := by
  funext w
  rw [segment_run, placeholderText, Eval.bind_run, Eval.read]
  rcases Formula.read (w.store.contains scope) inner with e | formula
  · rfl
  · dsimp only [valueOf, showOutcome]
    rcases formula.eval w.store scope with e | v <;> rfl

/-- A template from a placeholder on whose formula has the given outcome. -/
def filled (inner : List Char) (done : String) (ss : List Segment) (r : Except Failure Value) :
    Eval Value := do
  let text ← showOutcome host scope inner r
  let rest ← Eval.segments host scope ss
  pure (.str (done ++ text ++ rest))

theorem performs_fill (ss : List Segment) (done : String) :
    Performs host E (fill host scope done ss) (do
      let rest ← Eval.segments host scope ss
      pure (.str (done ++ rest))) := by
  induction ss generalizing done with
  | nil =>
    have hnil : (do
        let rest ← Eval.segments host scope []
        pure (Value.str (done ++ rest))) = pure (Value.str done) := by
      rw [Eval.segments, Eval.pure_bind, String.append_empty]
    rw [hnil]
    exact .give _
  | cons s ss ih =>
    -- the text of the first segment comes first, the other texts are joined to it
    have hcons : (do
        let rest ← Eval.segments host scope (s :: ss)
        pure (Value.str (done ++ rest))) = (do
        let text ← Eval.segment host scope s
        let rest ← Eval.segments host scope ss
        pure (Value.str (done ++ text ++ rest))) := by
      simp only [Eval.segments, Eval.bind_assoc, Eval.pure_bind, String.append_assoc]
    rw [hcons]
    cases s with
    | text chars => exact ih (done ++ String.ofList chars)
    | placeholder inner =>
      rw [segment_placeholder, Eval.bind_assoc]
      refine .bind fun r => ?_
      rcases r with e | formula
      · exact .bind fun text => ih (done ++ text)
      · have hformula : Performs host E (evaluate scope formula.toNode (.fill scope inner done ss))
            fun w =>
              filled host scope inner done ss (valueOf scope formula w).1 (valueOf scope formula w).2 :=
          .handle (performs_formula host scope formula) (fun v => .bind fun text => ih (done ++ text))
            (fun e => .bind fun text => ih (done ++ text)) fun _ _ h => h.elim
        exact hformula

theorem performs_template (text : String) :
    Performs host E (begin host scope (.template text)) (Eval.template host scope text) := by
  have h : Performs host E (fill host scope "" (segments text.toList)) _ :=
    performs_fill host scope _ ""
  simp only [String.empty_append] at h
  exact h

end Templates

/-! ### Loops and calls -/

section Parts

variable {scope : ScopeId}

/-- The bounds are known, so the number of turns is, whatever the body does to the names in them. -/
theorem performs_turn {name : String} {last : Int} {body : Node} {m : Eval Value}
    (hbody : Performs host E (begin host scope body) m) (next : Int) (v : Value) :
    Performs host E (turn scope name next last body v) (Eval.forEach (fun i => do
      Eval.assign scope name (.int i)
      m) (last + 1 - next).toNat next v) := by
  generalize hcount : (last + 1 - next).toNat = count
  induction count generalizing next v with
  | zero =>
    have hlast : ¬ next ≤ last := by omega
    rw [turn, if_neg hlast]
    exact .give v
  | succ count ih =>
    have hnext : next ≤ last := by omega
    rw [turn, if_pos hnext, Eval.forEach, Eval.bind_assoc]
    exact .bind fun _ => .evaluate hbody (fun v => ih (next + 1) v (by omega)) fun _ => rfl

/-- The call of a function, once its arguments are known. -/
def Callee.call (host : Host) (scope : ScopeId) (run : Runner) (callee : Callee) (args : List Value) :
    Eval Value := do
  let texts ← Eval.textsOf args
  Eval.note host scope ("call " ++ callee.called ++ "(" ++ ", ".intercalate texts ++ ")")
  Eval.invoke run callee.params callee.body callee.home callee.name args

theorem performs_enter {run : Runner} {callee : Callee}
    (hbody : ∀ scope, Performs host E (begin host scope callee.body) (run scope callee.body))
    (args : List Value) :
    Performs host E (enter callee args)
      (Eval.invoke run callee.params callee.body callee.home callee.name args) := by
  rw [enter, Eval.invoke]
  split
  · exact .fail _
  · exact .bind fun scope => .goOn (hbody scope)

end Parts

/-! ### Nodes -/

/-- No function is called in the tree, or the bodies of called functions are accounted for. -/
def Accounted (host : Host) (E : Failure → Prop) (run : Runner) (n : Node) : Prop :=
  n.CallFree ∨ ∀ scope body, Performs host E (begin host scope body) (run scope body)

theorem Accounted.child {run : Runner} {n m : Node} (h : Accounted host E run n) (hm : m ∈ n.children) :
    Accounted host E run m :=
  h.imp_left fun hfree => hfree.child hm

theorem Accounted.performs {run : Runner} {name : String} {args : List Node}
    (h : Accounted host E run (.call name args)) (scope : ScopeId) (body : Node) :
    Performs host E (begin host scope body) (run scope body) :=
  h.elim (fun hfree => absurd rfl (hfree.ne_call name args)) fun hrun => hrun scope body

section Nodes

variable {run : Runner} (scope : ScopeId)

mutual

/-- The machine performs the evaluation of a node. -/
theorem performs_evalWith : (n : Node) → Accounted host E run n →
    Performs host E (begin host scope n) (n.evalWith host run scope)
  | .int _, _ | .str _, _ | .bool _, _ | .none, _ => .give _
  | .template text, _ => performs_template host scope text
  | .var name, _ => .finish _
  | .assign _ e, h =>
    .evaluate (performs_evalWith e (h.child (by simp [Node.children])))
      (fun v => .bind fun _ => .bind fun _ => .bind fun _ => .give v) fun _ => rfl
  | .unary _ e, h | .print e, h | .read e, h =>
    .evaluate (performs_evalWith e (h.child (by simp [Node.children])))
      (fun _ => .finish _) fun _ => rfl
  | .binary _ l r, h | .split l r, h =>
    .evaluate (performs_evalWith l (h.child (by simp [Node.children])))
      (fun _ => .evaluate (performs_evalWith r (h.child (by simp [Node.children])))
        (fun _ => .finish _) fun _ => rfl) fun _ => rfl
  | .choice c t f, h | .ifElse c t f, h => by
    refine .evaluate (performs_evalWith c (h.child (by simp [Node.children])))
      (fun v => .bind fun b => ?_) fun _ => rfl
    split
    · exact .goOn (performs_evalWith t (h.child (by simp [Node.children])))
    · exact .goOn (performs_evalWith f (h.child (by simp [Node.children])))
  | .forLoop name first last body, h => by
    have hbody := performs_evalWith body (h.child (by simp [Node.children]))
    refine .evaluate (performs_evalWith first (h.child (by simp [Node.children])))
      (fun v => ?_) fun _ => rfl
    cases v with
    | int a =>
      refine .evaluate (performs_evalWith last (h.child (by simp [Node.children])))
        (fun v => ?_) fun _ => rfl
      cases v with
      | int b => exact .bind fun _ => .bind fun _ => performs_turn hbody a .none
      | _ => exact .give _
    | _ => exact .give _
  | .block ns, h =>
    performs_evalBlock ns (fun m hm => h.child (by simpa [Node.children] using hm)) .none
  | .declare _ _ _, _ => .bind fun _ => .give _
  | .call name args, h => by
    refine .bind fun v => ?_
    cases v with
    | function params body home fname =>
      exact performs_evalArgs ⟨name, params, body, home, fname⟩ (fun scope => h.performs scope body)
        args (fun m hm => h.child (by simpa [Node.children] using hm)) []
    | _ => exact .fail _

/-- The same for several statements. -/
theorem performs_evalBlock : (ns : List Node) → (∀ n ∈ ns, Accounted host E run n) → (v : Value) →
    Performs host E (statements host scope ns v) (Node.evalBlock host run scope ns v)
  | [], _, v => .give v
  | n :: ns, h, _ =>
    .bind fun _ => .evaluate (performs_evalWith n (h n List.mem_cons_self))
      (fun v => performs_evalBlock ns (fun m hm => h m (List.mem_cons_of_mem n hm)) v) fun _ => rfl

/-- The same for several arguments, and the call after them. -/
theorem performs_evalArgs (callee : Callee)
    (hbody : ∀ scope, Performs host E (begin host scope callee.body) (run scope callee.body)) :
    (ns : List Node) → (∀ n ∈ ns, Accounted host E run n) → (done : List Value) →
    Performs host E (arguments host scope callee done ns) (do
      let vs ← Node.evalArgs host run scope ns
      callee.call host scope run (done ++ vs))
  | [], _, done => by
    rw [Node.evalArgs, Eval.pure_bind, List.append_nil]
    exact .bind fun _ => .bind fun _ => performs_enter hbody done
  | n :: ns, h, done => by
    have hrest (v : Value) := performs_evalArgs callee hbody ns
      (fun m hm => h m (List.mem_cons_of_mem n hm)) (done ++ [v])
    simp only [List.append_assoc, List.singleton_append] at hrest
    simp only [Node.evalArgs, Eval.bind_assoc, Eval.pure_bind]
    exact .evaluate (performs_evalWith n (h n List.mem_cons_self)) hrest fun _ => rfl

end

end Nodes

end Machine

end Kestrel
