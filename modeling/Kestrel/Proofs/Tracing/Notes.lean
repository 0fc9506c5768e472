import Kestrel.Eval.Node

/-!
# Evaluation with its notes set apart

Evaluation puts notes into the trace at five points: where a name is given a value, where a loop starts,
where the next statement of a block comes, where a function is called, and where a placeholder has
failed. Here what is done at these points is a parameter, and all the rest of evaluation is as it was.

* `Notes` — what is done at the five points;
* `Notes.kept`, `Notes.none` — what evaluation does there, and nothing at all;
* `Node.evalNoting`, `Node.evalNotingWithin` — evaluation with any notes;
* `Node.evalNotingWithin_kept` — with its own notes it is evaluation.

With `Notes.none` no note is put together either, so a value that has no text is no obstacle there.
-/

namespace Kestrel

/-- What is done at the points of an evaluation at which something is noted. -/
structure Notes where
  /-- a name was given a value -/
  assigned : ScopeId → String → Value → Eval Unit
  /-- a loop starts, for a name and between two integers -/
  looped : ScopeId → String → Int → Int → Eval Unit
  /-- a statement of a block comes next -/
  reached : ScopeId → Node → Eval Unit
  /-- a function is about to be called with arguments -/
  called : ScopeId → String → List Value → Eval Unit
  /-- a placeholder has failed -/
  failed : ScopeId → List Char → RuntimeError → Eval Unit

namespace Notes

/-- What evaluation does: it puts a text together and adds it to the trace, if one is kept. -/
def kept (host : Host) : Notes where
  assigned scope name v := do
    let text ← Eval.ofExcept v.textOf
    Eval.note host scope (name ++ " = " ++ text)
  looped scope name a b := do
    let bounds ← Eval.textsOf [.int a, .int b]
    Eval.note host scope ("for " ++ name ++ " in " ++ "..".intercalate bounds)
  reached scope n := Eval.note host scope n.label
  called scope name vs := do
    let texts ← Eval.textsOf vs
    Eval.note host scope ("call " ++ name ++ "(" ++ ", ".intercalate texts ++ ")")
  failed scope inner e :=
    Eval.note host scope ("interpolation of '" ++ String.ofList inner ++ "' failed: " ++ e.message)

theorem kept_assigned (host : Host) (scope : ScopeId) (name : String) (v : Value) :
    (kept host).assigned scope name v = (do
      let text ← Eval.ofExcept v.textOf
      Eval.note host scope (name ++ " = " ++ text)) := rfl

theorem kept_looped (host : Host) (scope : ScopeId) (name : String) (a b : Int) :
    (kept host).looped scope name a b = (do
      let bounds ← Eval.textsOf [.int a, .int b]
      Eval.note host scope ("for " ++ name ++ " in " ++ "..".intercalate bounds)) := rfl

theorem kept_reached (host : Host) (scope : ScopeId) (n : Node) :
    (kept host).reached scope n = Eval.note host scope n.label := rfl

theorem kept_called (host : Host) (scope : ScopeId) (name : String) (vs : List Value) :
    (kept host).called scope name vs = (do
      let texts ← Eval.textsOf vs
      Eval.note host scope ("call " ++ name ++ "(" ++ ", ".intercalate texts ++ ")")) := rfl

/-- Nothing: no text is put together, and nothing is added to the trace. -/
protected def none : Notes where
  assigned _ _ _ := pure ()
  looped _ _ _ _ := pure ()
  reached _ _ := pure ()
  called _ _ _ := pure ()
  failed _ _ _ := pure ()

end Notes

/-! ### Evaluation with any notes -/

namespace Eval

/-- The text of one segment of a template. -/
def segmentNoting (notes : Notes) (scope : ScopeId) : Template.Segment → Eval String
  | .text chars => pure (String.ofList chars)
  | .placeholder inner => do
    match ← read fun s => Template.placeholderText s scope inner with
    | .ok text => pure text
    | .error (.runtime e) =>
      notes.failed scope inner e
      pure ("Error: " ++ e.message)
    | .error (.fault e) => fail (.fault e)

/-- The texts of the segments of a template, joined. -/
def segmentsNoting (notes : Notes) (scope : ScopeId) : List Template.Segment → Eval String
  | [] => pure ""
  | s :: ss => do
    let text ← segmentNoting notes scope s
    let rest ← segmentsNoting notes scope ss
    pure (text ++ rest)

/-- The value of a template. -/
def templateNoting (notes : Notes) (scope : ScopeId) (text : String) : Eval Value := do
  let filled ← segmentsNoting notes scope (Template.segments text.toList)
  pure (.str filled)

end Eval

mutual

/-- The value of a node in a scope. -/
def Node.evalNoting (notes : Notes) (host : Host) (run : Runner) (scope : ScopeId) : Node → Eval Value
  | .int n => pure (.int n)
  | .str s => pure (.str s)
  | .bool b => pure (.bool b)
  | .none => pure .none
  | .template text => Eval.templateNoting notes scope text
  | .var name => Eval.lookup scope name
  | .assign name e => do
    let v ← e.evalNoting notes host run scope
    Eval.assign scope name v
    notes.assigned scope name v
    pure v
  | .binary op l r => do
    let x ← l.evalNoting notes host run scope
    let y ← r.evalNoting notes host run scope
    Eval.ofExcept (op.apply x y)
  | .unary op e => do
    let v ← e.evalNoting notes host run scope
    Eval.ofExcept (op.apply v)
  | .choice c t f => do
    let v ← c.evalNoting notes host run scope
    if ← Eval.condition "ternary" v then t.evalNoting notes host run scope
    else f.evalNoting notes host run scope
  | .ifElse c t f => do
    let v ← c.evalNoting notes host run scope
    if ← Eval.condition "if" v then t.evalNoting notes host run scope
    else f.evalNoting notes host run scope
  | .forLoop name first last body => do
    match ← first.evalNoting notes host run scope with
    | .int a =>
      match ← last.evalNoting notes host run scope with
      | .int b =>
        notes.looped scope name a b
        Eval.forEach (fun i => do
          Eval.assign scope name (.int i)
          body.evalNoting notes host run scope) (b + 1 - a).toNat a .none
      | _ => pure .none
    | _ => pure .none
  | .block ns => Node.evalBlockNoting notes host run scope ns .none
  | .declare name params body => do
    Eval.define scope name (.function params body scope name)
    pure .none
  | .call name args => do
    match ← Eval.lookup scope name with
    | .function params body home fname => do
      let vs ← Node.evalArgsNoting notes host run scope args
      notes.called scope name vs
      Eval.invoke run params body home fname vs
    | v => Eval.fail (.runtime (.notAFunction name v.kind))
  | .print e => do
    let v ← e.evalNoting notes host run scope
    Eval.print v
  | .read e => do
    let v ← e.evalNoting notes host run scope
    Eval.contents host v
  | .split s d => do
    let x ← s.evalNoting notes host run scope
    let y ← d.evalNoting notes host run scope
    Eval.ofExcept (Value.split x y)

/-- The value of the last one of several statements, or `last` if there is none. -/
def Node.evalBlockNoting (notes : Notes) (host : Host) (run : Runner) (scope : ScopeId) :
    List Node → Value → Eval Value
  | [], last => pure last
  | n :: ns, _ => do
    notes.reached scope n
    let v ← n.evalNoting notes host run scope
    Node.evalBlockNoting notes host run scope ns v

/-- The values of several nodes, from the left. -/
def Node.evalArgsNoting (notes : Notes) (host : Host) (run : Runner) (scope : ScopeId) :
    List Node → Eval (List Value)
  | [] => pure []
  | n :: ns => do
    let v ← n.evalNoting notes host run scope
    let vs ← Node.evalArgsNoting notes host run scope ns
    pure (v :: vs)

end

/-- The value of a node in a scope where at most `calls` calls may lie inside each other. -/
def Node.evalNotingWithin (notes : Notes) (host : Host) : (calls : Nat) → ScopeId → Node → Eval Value
  | 0, scope, n => n.evalNoting notes host (fun _ _ => Eval.fail (.fault .stackFull)) scope
  | calls + 1, scope, n => n.evalNoting notes host (Node.evalNotingWithin notes host calls) scope

/-! ### With the notes that evaluation makes -/

namespace Eval

variable (host : Host) (scope : ScopeId)

theorem segmentNoting_kept (s : Template.Segment) :
    segmentNoting (.kept host) scope s = segment host scope s := by
  cases s <;> rfl

theorem segmentsNoting_kept (ss : List Template.Segment) :
    segmentsNoting (.kept host) scope ss = segments host scope ss := by
  induction ss with
  | nil => rfl
  | cons s ss ih => rw [segmentsNoting, segments, segmentNoting_kept, ih]

theorem templateNoting_kept (text : String) :
    templateNoting (.kept host) scope text = template host scope text := by
  rw [templateNoting, template, segmentsNoting_kept]

end Eval

section

variable (host : Host) (run : Runner) (scope : ScopeId)

mutual

/-- With its own notes, evaluation with notes is evaluation. -/
theorem Node.evalNoting_kept : (n : Node) →
    n.evalNoting (.kept host) host run scope = n.evalWith host run scope
  | .int _ | .str _ | .bool _ | .none | .var _ | .declare _ _ _ => rfl
  | .template text => Eval.templateNoting_kept host scope text
  | .assign _ e => by
    simp only [Node.evalNoting, Node.evalWith, Node.evalNoting_kept e, Notes.kept_assigned,
      Eval.bind_assoc]
  | .unary _ e | .print e | .read e => by
    simp only [Node.evalNoting, Node.evalWith, Node.evalNoting_kept e]
  | .binary _ l r | .split l r => by
    simp only [Node.evalNoting, Node.evalWith, Node.evalNoting_kept l, Node.evalNoting_kept r]
  | .choice c t f | .ifElse c t f => by
    simp only [Node.evalNoting, Node.evalWith, Node.evalNoting_kept c, Node.evalNoting_kept t,
      Node.evalNoting_kept f]
  | .forLoop name first last body => by
    rw [Node.evalNoting, Node.evalWith, Node.evalNoting_kept first]
    refine bind_congr fun v => ?_
    cases v with
    | int a =>
      simp only [Node.evalNoting_kept last]
      refine bind_congr fun v => ?_
      cases v with
      | int b => simp only [Node.evalNoting_kept body, Notes.kept_looped, Eval.bind_assoc]
      | _ => rfl
    | _ => rfl
  | .block ns => by rw [Node.evalNoting, Node.evalWith, Node.evalBlockNoting_kept ns]
  | .call name args => by
    rw [Node.evalNoting, Node.evalWith]
    refine bind_congr fun v => ?_
    cases v with
    | function _ _ _ _ => 
      simp only [Node.evalArgsNoting_kept args, Notes.kept_called, Eval.bind_assoc]
    | _ => rfl

/-- The same for several statements. -/
theorem Node.evalBlockNoting_kept : (ns : List Node) → (last : Value) →
    Node.evalBlockNoting (.kept host) host run scope ns last = Node.evalBlock host run scope ns last
  | [], _ => rfl
  | n :: ns, _ => by
    simp only [Node.evalBlockNoting, Node.evalBlock, Node.evalNoting_kept n,
      Node.evalBlockNoting_kept ns, Notes.kept_reached]

/-- The same for several arguments. -/
theorem Node.evalArgsNoting_kept : (ns : List Node) →
    Node.evalArgsNoting (.kept host) host run scope ns = Node.evalArgs host run scope ns
  | [] => rfl
  | n :: ns => by
    simp only [Node.evalArgsNoting, Node.evalArgs, Node.evalNoting_kept n,
      Node.evalArgsNoting_kept ns]

end

end

theorem Node.evalNotingWithin_kept (host : Host) (calls : Nat) (scope : ScopeId) (n : Node) :
    n.evalNotingWithin (.kept host) host calls scope = n.evalWithin host calls scope := by
  induction calls generalizing scope n with
  | zero => exact Node.evalNoting_kept ..
  | succ calls ih =>
    have hrun : Node.evalNotingWithin (.kept host) host calls = Node.evalWithin host calls := by
      funext scope n
      exact ih scope n
    rw [Node.evalNotingWithin, Node.evalWithin, hrun, Node.evalNoting_kept]

end Kestrel
