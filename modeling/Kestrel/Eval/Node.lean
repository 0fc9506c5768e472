import Kestrel.Eval.Basic
import Kestrel.Template.Formula
import Kestrel.Template.Segment

/-!
# Evaluation

The value of a node in a scope. Evaluation follows the tree, except where a function is called: there
it goes on with the function's body, and the number of calls inside each other is bounded. So a tree
is evaluated in two stages.

* `Node.evalWith` — evaluation that is told how to run the body of a called function;
* `Node.evalWithin` — evaluation in which at most so many calls lie inside each other;
* `Node.eval` — the same with the bound that the host's stack sets.

Only calls are bounded. A tree is evaluated however deep its nodes lie inside each other.

A message for the trace is put together even if no trace is kept, so a value that has no text fails
where the trace would show it.
-/

namespace Kestrel

/-- How the body of a called function is run: in the scope made for the call. -/
abbrev Runner := ScopeId → Node → Eval Value

namespace Eval

/-- Does `body` for `count` integers from `first` on; the value is that of the last turn. -/
def forEach (body : Int → Eval Value) :
    (count : Nat) → (first : Int) → (last : Value) → Eval Value
  | 0, _, last => pure last
  | count + 1, first, _ => do
    let v ← body first
    forEach body count (first + 1) v

/-- The truth value of a condition. -/
def condition (construct : String) : Value → Eval Bool
  | .bool b => pure b
  | v => fail (.runtime (.typeMismatch (construct ++ " condition") v.kind))

/-- The texts of values, each of which must have one. -/
def textsOf (vs : List Value) : Eval (List String) :=
  match Value.texts? vs with
  | some ts => pure ts
  | none => fail (.fault .tooManyDigits)

/-- The text of the file whose path is the given value. -/
def contents (host : Host) (path : Value) : Eval Value := do
  let path ← ofExcept (path.expectStr "readFile")
  match host.files.readText path with
  | .error fault => fail (.fault fault)
  | .ok (.error fault) => fail (.runtime (.ioFailure path fault))
  | .ok (.ok text) => pure (.str text)

/-- Prints the text of a value, on a line of its own. -/
def print (v : Value) : Eval Value := do
  let text ← ofExcept v.textOf
  write (text ++ "\n")
  pure .none

/-- The text of one segment of a template. A failure of the program takes the place of the value and
is noted in the trace; a failure of the host ends the evaluation. -/
def segment (host : Host) (scope : ScopeId) : Template.Segment → Eval String
  | .text chars => pure (String.ofList chars)
  | .placeholder inner => do
    match ← read fun s => Template.placeholderText s scope inner with
    | .ok text => pure text
    | .error (.runtime e) =>
      note host scope ("interpolation of '" ++ String.ofList inner ++ "' failed: " ++ e.message)
      pure ("Error: " ++ e.message)
    | .error (.fault e) => fail (.fault e)

/-- The texts of the segments of a template, joined. -/
def segments (host : Host) (scope : ScopeId) : List Template.Segment → Eval String
  | [] => pure ""
  | s :: ss => do
    let text ← segment host scope s
    let rest ← segments host scope ss
    pure (text ++ rest)

/-- The value of a template. -/
def template (host : Host) (scope : ScopeId) (text : String) : Eval Value := do
  let filled ← segments host scope (Template.segments text.toList)
  pure (.str filled)

/-- Calls a function with arguments: they are bound to its parameters in a new scope inside the one in
which it was declared, and its body is run there. -/
def invoke (run : Runner) (params : List String) (body : Node) (home : ScopeId) (name : String)
    (args : List Value) : Eval Value :=
  if args.length ≠ params.length then
    fail (.runtime (.arityMismatch params.length args.length name))
  else do
    let scope ← newScope home (Bindings.ofList (params.zip args))
    run scope body

end Eval

mutual

/-- The value of a node in a scope, given how to run the body of a called function. -/
def Node.evalWith (host : Host) (run : Runner) (scope : ScopeId) : Node → Eval Value
  | .int n => pure (.int n)
  | .str s => pure (.str s)
  | .bool b => pure (.bool b)
  | .none => pure .none
  | .template text => Eval.template host scope text
  | .var name => Eval.lookup scope name
  | .assign name e => do
    let v ← e.evalWith host run scope
    Eval.assign scope name v
    let text ← Eval.ofExcept v.textOf
    Eval.note host scope (name ++ " = " ++ text)
    pure v
  | .binary op l r => do
    let x ← l.evalWith host run scope
    let y ← r.evalWith host run scope
    Eval.ofExcept (op.apply x y)
  | .unary op e => do
    let v ← e.evalWith host run scope
    Eval.ofExcept (op.apply v)
  | .choice c t f => do
    let v ← c.evalWith host run scope
    if ← Eval.condition "ternary" v then t.evalWith host run scope else f.evalWith host run scope
  | .ifElse c t f => do
    let v ← c.evalWith host run scope
    if ← Eval.condition "if" v then t.evalWith host run scope else f.evalWith host run scope
  | .forLoop name first last body => do
    match ← first.evalWith host run scope with
    | .int a =>
      match ← last.evalWith host run scope with
      | .int b =>
        let bounds ← Eval.textsOf [.int a, .int b]
        Eval.note host scope ("for " ++ name ++ " in " ++ "..".intercalate bounds)
        Eval.forEach (fun i => do
          Eval.assign scope name (.int i)
          body.evalWith host run scope) (b + 1 - a).toNat a .none
      | _ => pure .none
    | _ => pure .none
  | .block ns => Node.evalBlock host run scope ns .none
  | .declare name params body => do
    Eval.define scope name (.function params body scope name)
    pure .none
  | .call name args => do
    match ← Eval.lookup scope name with
    | .function params body home fname => do
      let vs ← Node.evalArgs host run scope args
      let texts ← Eval.textsOf vs
      Eval.note host scope ("call " ++ name ++ "(" ++ ", ".intercalate texts ++ ")")
      Eval.invoke run params body home fname vs
    | v => Eval.fail (.runtime (.notAFunction name v.kind))
  | .print e => do
    let v ← e.evalWith host run scope
    Eval.print v
  | .read e => do
    let v ← e.evalWith host run scope
    Eval.contents host v
  | .split s d => do
    let x ← s.evalWith host run scope
    let y ← d.evalWith host run scope
    Eval.ofExcept (Value.split x y)

/-- The value of the last one of several statements, or `last` if there is none. -/
def Node.evalBlock (host : Host) (run : Runner) (scope : ScopeId) : List Node → Value → Eval Value
  | [], last => pure last
  | n :: ns, _ => do
    Eval.note host scope n.label
    let v ← n.evalWith host run scope
    Node.evalBlock host run scope ns v

/-- The values of several nodes, from the left. -/
def Node.evalArgs (host : Host) (run : Runner) (scope : ScopeId) : List Node → Eval (List Value)
  | [] => pure []
  | n :: ns => do
    let v ← n.evalWith host run scope
    let vs ← Node.evalArgs host run scope ns
    pure (v :: vs)

end

/-- The value of a node in a scope where at most `calls` calls may lie inside each other. -/
def Node.evalWithin (host : Host) : (calls : Nat) → ScopeId → Node → Eval Value
  | 0, scope, n => n.evalWith host (fun _ _ => Eval.fail (.fault .stackFull)) scope
  | calls + 1, scope, n => n.evalWith host (Node.evalWithin host calls) scope

/-- The value of a node in a scope. The stack of the host bounds the calls. -/
def Node.eval (host : Host) (scope : ScopeId) (n : Node) : Eval Value :=
  n.evalWithin host host.calls scope

/-- Calls a function value from outside a program. -/
def Value.invoke (host : Host) (params : List String) (body : Node) (home : ScopeId) (name : String)
    (args : List Value) : Eval Value :=
  Eval.invoke (Node.evalWithin host host.calls) params body home name args

/-- Runs the statements of a program in a scope. -/
def evalProgram (host : Host) (scope : ScopeId) (statements : List Node) : Eval Value := do
  Eval.traceLine host fun _ => "[run] " ++ toString statements.length ++ " top-level statements"
  (Node.block statements).eval host scope

end Kestrel
