import Kestrel.Proofs.Scopes.Closure
import Kestrel.Session

/-!
# Evaluation with a record

Evaluation as it is defined gives the scopes at its end only. Here it also records what it does to
them on the way, in order, whether it ends with a value or fails. The record leaves nothing out: done
again, it gives the scopes at the end.

* `Event`, `Event.apply` — what can happen to the scopes, and what comes of it;
* `replay` — the scopes after a record, from those of a fresh session on;
* `Recorded` — computations with a record, a monad;
* `Node.recordWith`, `Node.recordWithin`, `Node.record` — evaluation with a record;
* `Node.plain_recordWithin` — without its record it is evaluation.
-/

namespace Kestrel

/-- What can happen to the scopes, or to a value that may lead to them. -/
inductive Event where
  /-- a name was given a value, seen from the scope -/
  | assigned (scope : ScopeId) (name : String) (value : Value)
  /-- a function was declared in the scope -/
  | declared (scope : ScopeId) (name : String) (params : List String) (body : Node)
  /-- a function was called with arguments, and the scope was made for the call -/
  | called (scope : ScopeId) (function : Closure) (args : List Value)
  /-- a call was done and gave a value -/
  | returned (value : Value)

/-- The scopes after an event. -/
def Event.apply (s : Store) : Event → Store
  | assigned scope name value => s.assign scope name value
  | declared scope name params body => s.define scope name (.function params body scope name)
  | called _ f args => s.push (some f.home) (Bindings.ofList (f.params.zip args))
  | returned _ => s

/-- The scopes after the events of a session, the first one first. -/
def replay (history : List Event) : Store :=
  history.foldl Event.apply Session.freshStore

@[simp] theorem replay_append_singleton (history : List Event) (e : Event) :
    replay (history ++ [e]) = e.apply (replay history) := by
  simp [replay]

/-- A computation that gives a record besides its outcome. -/
def Recorded (α : Type) : Type := World → (Except Failure α × World) × List Event

namespace Recorded

variable {α β : Type}

/-- The computation that only has a value. -/
protected def pure (a : α) : Recorded α := fun w => ((.ok a, w), [])

/-- One computation after another, unless the first one fails. -/
protected def bind (m : Recorded α) (f : α → Recorded β) : Recorded β := fun w =>
  match m w with
  | ((.ok a, w'), events) => ((f a w').1, events ++ (f a w').2)
  | ((.error e, w'), events) => ((.error e, w'), events)

instance : Monad Recorded where
  pure := Recorded.pure
  bind := Recorded.bind

/-- The computation without its record. -/
def plain (m : Recorded α) : Eval α := fun w => (m w).1

/-- A computation with nothing to record. -/
def silent (m : Eval α) : Recorded α := fun w => (m w, [])

/-- A computation that is recorded as one event. -/
def noted (event : Store → Event) (m : Eval α) : Recorded α := fun w => (m w, [event w.store])

/-- Gives a value to a name where it is bound, or else in the scope itself. -/
def assign (scope : ScopeId) (name : String) (value : Value) : Recorded Unit :=
  noted (fun _ => .assigned scope name value) (Eval.assign scope name value)

/-- Binds the name of a function in a scope. -/
def declare (scope : ScopeId) (name : String) (params : List String) (body : Node) :
    Recorded Unit :=
  noted (fun _ => .declared scope name params body)
    (Eval.define scope name (.function params body scope name))

/-- Makes the scope for a call. -/
def enter (f : Closure) (args : List Value) : Recorded ScopeId :=
  noted (fun s => .called s.size f args)
    (Eval.newScope f.home (Bindings.ofList (f.params.zip args)))

/-- Gives the value of a call. -/
def leave (value : Value) : Recorded Value :=
  noted (fun _ => .returned value) (pure value)

/-- Does `body` for `count` integers from `first` on; the value is that of the last turn. -/
def forEach (body : Int → Recorded Value) :
    (count : Nat) → (first : Int) → (last : Value) → Recorded Value
  | 0, _, last => pure last
  | count + 1, first, _ => do
    let v ← body first
    forEach body count (first + 1) v

/-- Calls a function with arguments. -/
def invoke (run : ScopeId → Node → Recorded Value) (f : Closure) (args : List Value) :
    Recorded Value :=
  if args.length ≠ f.params.length then
    silent (Eval.fail (.runtime (.arityMismatch f.params.length args.length f.name)))
  else do
    let scope ← enter f args
    let v ← run scope f.body
    leave v

end Recorded

mutual

/-- The value of a node in a scope, with a record. -/
def Node.recordWith (host : Host) (run : ScopeId → Node → Recorded Value) (scope : ScopeId) :
    Node → Recorded Value
  | .int n => pure (.int n)
  | .str s => pure (.str s)
  | .bool b => pure (.bool b)
  | .none => pure .none
  | .template text => Recorded.silent (Eval.template host scope text)
  | .var name => Recorded.silent (Eval.lookup scope name)
  | .assign name e => do
    let v ← e.recordWith host run scope
    Recorded.assign scope name v
    let text ← Recorded.silent (Eval.ofExcept v.textOf)
    Recorded.silent (Eval.note host scope (name ++ " = " ++ text))
    pure v
  | .binary op l r => do
    let x ← l.recordWith host run scope
    let y ← r.recordWith host run scope
    Recorded.silent (Eval.ofExcept (op.apply x y))
  | .unary op e => do
    let v ← e.recordWith host run scope
    Recorded.silent (Eval.ofExcept (op.apply v))
  | .choice c t f => do
    let v ← c.recordWith host run scope
    if ← Recorded.silent (Eval.condition "ternary" v) then t.recordWith host run scope
    else f.recordWith host run scope
  | .ifElse c t f => do
    let v ← c.recordWith host run scope
    if ← Recorded.silent (Eval.condition "if" v) then t.recordWith host run scope
    else f.recordWith host run scope
  | .forLoop name first last body => do
    match ← first.recordWith host run scope with
    | .int a =>
      match ← last.recordWith host run scope with
      | .int b =>
        let bounds ← Recorded.silent (Eval.textsOf [.int a, .int b])
        Recorded.silent
          (Eval.note host scope ("for " ++ name ++ " in " ++ "..".intercalate bounds))
        Recorded.forEach (fun i => do
          Recorded.assign scope name (.int i)
          body.recordWith host run scope) (b + 1 - a).toNat a .none
      | _ => pure .none
    | _ => pure .none
  | .block ns => Node.recordBlock host run scope ns .none
  | .declare name params body => do
    Recorded.declare scope name params body
    pure .none
  | .call name args => do
    match ← Recorded.silent (Eval.lookup scope name) with
    | .function params body home fname => do
      let vs ← Node.recordArgs host run scope args
      let texts ← Recorded.silent (Eval.textsOf vs)
      Recorded.silent
        (Eval.note host scope ("call " ++ name ++ "(" ++ ", ".intercalate texts ++ ")"))
      Recorded.invoke run ⟨params, body, home, fname⟩ vs
    | v => Recorded.silent (Eval.fail (.runtime (.notAFunction name v.kind)))
  | .print e => do
    let v ← e.recordWith host run scope
    Recorded.silent (Eval.print v)
  | .read e => do
    let v ← e.recordWith host run scope
    Recorded.silent (Eval.contents host v)
  | .split s d => do
    let x ← s.recordWith host run scope
    let y ← d.recordWith host run scope
    Recorded.silent (Eval.ofExcept (Value.split x y))

/-- The value of the last one of several statements, with a record. -/
def Node.recordBlock (host : Host) (run : ScopeId → Node → Recorded Value) (scope : ScopeId) :
    List Node → Value → Recorded Value
  | [], last => pure last
  | n :: ns, _ => do
    Recorded.silent (Eval.note host scope n.label)
    let v ← n.recordWith host run scope
    Node.recordBlock host run scope ns v

/-- The values of several nodes, with a record. -/
def Node.recordArgs (host : Host) (run : ScopeId → Node → Recorded Value) (scope : ScopeId) :
    List Node → Recorded (List Value)
  | [] => pure []
  | n :: ns => do
    let v ← n.recordWith host run scope
    let vs ← Node.recordArgs host run scope ns
    pure (v :: vs)

end

/-- The value of a node in a scope where at most `calls` calls may lie inside each other, with a
record. -/
def Node.recordWithin (host : Host) : (calls : Nat) → ScopeId → Node → Recorded Value
  | 0, scope, n =>
    n.recordWith host (fun _ _ => Recorded.silent (Eval.fail (.fault .stackFull))) scope
  | calls + 1, scope, n => n.recordWith host (Node.recordWithin host calls) scope

/-! ### Without the record -/

namespace Recorded

variable {α β : Type}

@[simp] theorem plain_pure (a : α) : (pure a : Recorded α).plain = pure a := rfl

@[simp] theorem plain_bind (m : Recorded α) (f : α → Recorded β) :
    (m >>= f).plain = m.plain >>= fun a => (f a).plain := by
  funext w
  change (Recorded.bind m f w).1 = Eval.bind m.plain (fun a => (f a).plain) w
  rw [Recorded.bind, Eval.bind, plain]
  rcases m w with ⟨⟨_ | a, w'⟩, events⟩ <;> rfl

@[simp] theorem plain_silent (m : Eval α) : (silent m).plain = m := rfl

@[simp] theorem plain_assign (scope : ScopeId) (name : String) (value : Value) :
    (assign scope name value).plain = Eval.assign scope name value := rfl

@[simp] theorem plain_declare (scope : ScopeId) (name : String) (params : List String)
    (body : Node) : (declare scope name params body).plain =
      Eval.define scope name (.function params body scope name) := rfl

@[simp] theorem plain_enter (f : Closure) (args : List Value) : (enter f args).plain =
    Eval.newScope f.home (Bindings.ofList (f.params.zip args)) := rfl

@[simp] theorem plain_leave (value : Value) : (leave value).plain = pure value := rfl

theorem plain_forEach (body : Int → Recorded Value) (count : Nat) (first : Int) (last : Value) :
    (forEach body count first last).plain =
      Eval.forEach (fun i => (body i).plain) count first last := by
  induction count generalizing first last with
  | zero => rfl
  | succ count ih => simp only [forEach, Eval.forEach, plain_bind, ih]

theorem plain_invoke (run : ScopeId → Node → Recorded Value) (f : Closure) (args : List Value) :
    (invoke run f args).plain =
      Eval.invoke (fun scope n => (run scope n).plain) f.params f.body f.home f.name args := by
  rw [invoke, Eval.invoke]
  split
  · rfl
  · simp only [plain_bind, plain_enter, plain_leave, Eval.bind_pure]

end Recorded

section

variable (host : Host) (run : ScopeId → Node → Recorded Value) (scope : ScopeId)

mutual

/-- Without its record, evaluation with a record is evaluation. -/
theorem Node.plain_recordWith : (n : Node) → (n.recordWith host run scope).plain =
    n.evalWith host (fun scope n => (run scope n).plain) scope
  | .int _ | .str _ | .bool _ | .none | .template _ | .var _ => rfl
  | .assign _ e | .unary _ e | .print e | .read e => by
    simp [Node.recordWith, Node.evalWith, Node.plain_recordWith e]
  | .binary _ l r | .split l r => by
    simp [Node.recordWith, Node.evalWith, Node.plain_recordWith l, Node.plain_recordWith r]
  | .choice c t f | .ifElse c t f => by
    simp [Node.recordWith, Node.evalWith, apply_ite Recorded.plain, Node.plain_recordWith c,
      Node.plain_recordWith t, Node.plain_recordWith f]
  | .forLoop name first last body => by
    rw [Node.recordWith, Node.evalWith, Recorded.plain_bind, Node.plain_recordWith first]
    refine bind_congr fun v => ?_
    cases v with
    | int a =>
      rw [Recorded.plain_bind, Node.plain_recordWith last]
      refine bind_congr fun v => ?_
      cases v with
      | int b => simp [Recorded.plain_forEach, Node.plain_recordWith body]
      | _ => rfl
    | _ => rfl
  | .block ns => by
    rw [Node.recordWith, Node.evalWith, Node.plain_recordBlock ns]
  | .declare _ _ _ => by simp [Node.recordWith, Node.evalWith]
  | .call name args => by
    rw [Node.recordWith, Node.evalWith, Recorded.plain_bind, Recorded.plain_silent]
    refine bind_congr fun v => ?_
    cases v with
    | function params body home fname =>
      simp [Recorded.plain_invoke, Node.plain_recordArgs args]
    | _ => rfl

/-- The same for several statements. -/
theorem Node.plain_recordBlock : (ns : List Node) → (last : Value) →
    (Node.recordBlock host run scope ns last).plain =
      Node.evalBlock host (fun scope n => (run scope n).plain) scope ns last
  | [], _ => rfl
  | n :: ns, _ => by
    simp [Node.recordBlock, Node.evalBlock, Node.plain_recordWith n, Node.plain_recordBlock ns]

/-- The same for several arguments. -/
theorem Node.plain_recordArgs : (ns : List Node) →
    (Node.recordArgs host run scope ns).plain =
      Node.evalArgs host (fun scope n => (run scope n).plain) scope ns
  | [] => rfl
  | n :: ns => by
    simp [Node.recordArgs, Node.evalArgs, Node.plain_recordWith n, Node.plain_recordArgs ns]

end

end

theorem Node.plain_recordWithin (host : Host) (calls : Nat) (scope : ScopeId) (n : Node) :
    (n.recordWithin host calls scope).plain = n.evalWithin host calls scope := by
  induction calls generalizing scope n with
  | zero => exact Node.plain_recordWith ..
  | succ calls ih =>
    rw [Node.recordWithin, Node.evalWithin, Node.plain_recordWith]
    simp only [ih]

end Kestrel
