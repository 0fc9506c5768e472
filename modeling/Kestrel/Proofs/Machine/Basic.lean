import Kestrel.Eval.Node

/-!
# Evaluation step by step

A machine that evaluates a node in small steps. It has a stack of tasks, each of which waits for the
value of a node. A step starts with a node, or goes on with a task once there is a value for it, or
takes a task off the stack because there was a failure. Whether a loop takes another turn is asked
before each turn, and the body of a called function is evaluated like any other node.

* `Task`, `Control`, `State` — what waits for a value, what the machine is about to do, and its states;
* `Move` — what a step leads to;
* `begin`, `resume`, `unwind` — a step at a node, at a value and at a failure;
* `step` — one step; where there is none, the machine has halted;
* `run` — several steps.
-/

namespace Kestrel.Machine

open Template

/-! ### States -/

/-- A function with the name by which it is called. -/
structure Callee where
  /-- the name in the call -/
  called : String
  /-- the parameters -/
  params : List String
  /-- the body -/
  body : Node
  /-- the scope in which the function was declared -/
  home : ScopeId
  /-- the name with which it was declared -/
  name : String

/-- What is still to be done with the value of a node. -/
inductive Task where
  /-- to give it to a name -/
  | assign (scope : ScopeId) (name : String)
  /-- to go on with the right operand -/
  | right (scope : ScopeId) (op : BinaryOp) (right : Node)
  /-- to apply an operator to it, with the left operand given -/
  | binary (op : BinaryOp) (left : Value)
  /-- to apply an operator to it -/
  | unary (op : UnaryOp)
  /-- to choose one of two nodes by it -/
  | branch (scope : ScopeId) (construct : String) (yes no : Node)
  /-- to go on with the second bound of a loop -/
  | bound (scope : ScopeId) (name : String) (last body : Node)
  /-- to start a loop, with the first bound given -/
  | loop (scope : ScopeId) (name : String) (first : Int) (body : Node)
  /-- to take the next turn of a loop, if there is one -/
  | turn (scope : ScopeId) (name : String) (next last : Int) (body : Node)
  /-- to go on with the statements after it -/
  | rest (scope : ScopeId) (statements : List Node)
  /-- to go on with the arguments after it, with those before it given -/
  | argument (scope : ScopeId) (callee : Callee) (done : List Value) (rest : List Node)
  /-- to print it -/
  | print
  /-- to read the file of that name -/
  | read
  /-- to go on with the delimiter -/
  | delimiter (scope : ScopeId) (delimiter : Node)
  /-- to split a text by it -/
  | split (text : Value)
  /-- to put its text, or a word about its failure, in the place of a placeholder, and to go on with the
  segments after it -/
  | fill (scope : ScopeId) (inner : List Char) (done : String) (rest : List Segment)

/-- What the machine is about to do. -/
inductive Control where
  /-- to evaluate a node -/
  | eval (scope : ScopeId) (n : Node)
  /-- to give a value to the task on top -/
  | give (v : Value)
  /-- to pass a failure to the task on top -/
  | raise (e : Failure)

/-- A state of the machine. -/
structure State where
  /-- what comes next -/
  control : Control
  /-- what waits for a value, the innermost first -/
  tasks : List Task
  /-- the world -/
  world : World

/-- The outcome of a computation as what comes next. -/
def Control.ofExcept : Except Failure Value → Control
  | .ok v => give v
  | .error e => raise e

/-- At the start of a node. -/
def State.start (scope : ScopeId) (n : Node) (w : World) : State := ⟨.eval scope n, [], w⟩

/-- At the end, with an outcome. -/
def State.halted (r : Except Failure Value × World) : State := ⟨.ofExcept r.1, [], r.2⟩

/-! ### What a step leads to -/

/-- What comes next, and the task that waits for its value, if one does. -/
structure Move where
  /-- what comes next -/
  control : Control
  /-- the new task -/
  task : Option Task

/-- There is a value. -/
def give (v : Value) : Eval Move := pure ⟨.give v, none⟩

/-- The value comes from a computation. -/
def finish (m : Eval Value) : Eval Move := do
  let v ← m
  give v

/-- A node is to be evaluated, and its value is the value. -/
def goOn (scope : ScopeId) (n : Node) : Eval Move := pure ⟨.eval scope n, none⟩

/-- A node is to be evaluated for a task. -/
def evaluate (scope : ScopeId) (n : Node) (task : Task) : Eval Move := pure ⟨.eval scope n, some task⟩

/-- The state after a move, above the given tasks. -/
def State.after (move : Eval Move) (tasks : List Task) (w : World) : State :=
  match move w with
  | (.ok ⟨control, task⟩, w') => ⟨control, task.toList ++ tasks, w'⟩
  | (.error e, w') => ⟨.raise e, tasks, w'⟩

/-! ### Steps -/

section Steps

variable (host : Host) (scope : ScopeId)

/-- Statements after a value. -/
def statements : List Node → Value → Eval Move
  | [], last => give last
  | n :: ns, _ => do
    Eval.note host scope n.label
    evaluate scope n (.rest scope ns)

/-- The next turn of a loop, after a value. -/
def turn (name : String) (next last : Int) (body : Node) (v : Value) : Eval Move :=
  if next ≤ last then do
    Eval.assign scope name (.int next)
    evaluate scope body (.turn scope name (next + 1) last body)
  else give v

/-- The body of a function, in a new scope. -/
def enter (callee : Callee) (args : List Value) : Eval Move :=
  if args.length ≠ callee.params.length then
    Eval.fail (.runtime (.arityMismatch callee.params.length args.length callee.name))
  else do
    let scope ← Eval.newScope callee.home (Bindings.ofList (callee.params.zip args))
    goOn scope callee.body

/-- The other arguments of a call, and then the call. -/
def arguments (callee : Callee) (done : List Value) : List Node → Eval Move
  | [] => do
    let texts ← Eval.textsOf done
    Eval.note host scope ("call " ++ callee.called ++ "(" ++ ", ".intercalate texts ++ ")")
    enter callee done
  | n :: ns => evaluate scope n (.argument scope callee done ns)

/-- What takes the place of a placeholder: a text, or a word about a failure of the program. -/
def shown (inner : List Char) : Except Failure String → Eval String
  | .ok text => pure text
  | .error (.runtime e) => do
    Eval.note host scope ("interpolation of '" ++ String.ofList inner ++ "' failed: " ++ e.message)
    pure ("Error: " ++ e.message)
  | .error (.fault e) => Eval.fail (.fault e)

/-- The other segments of a template, up to the next formula. -/
def fill : (done : String) → List Segment → Eval Move
  | done, [] => give (.str done)
  | done, .text chars :: ss => fill (done ++ String.ofList chars) ss
  | done, .placeholder inner :: ss => do
    match ← Eval.read fun s => Formula.read (s.contains scope) inner with
    | .ok formula => evaluate scope formula.toNode (.fill scope inner done ss)
    | .error e =>
      let text ← shown host scope inner (.error e)
      fill (done ++ text) ss

/-- A step at a node. -/
def begin : Node → Eval Move
  | .int n => give (.int n)
  | .str s => give (.str s)
  | .bool b => give (.bool b)
  | .none => give .none
  | .template text => fill host scope "" (segments text.toList)
  | .var name => finish (Eval.lookup scope name)
  | .assign name e => evaluate scope e (.assign scope name)
  | .binary op l r => evaluate scope l (.right scope op r)
  | .unary op e => evaluate scope e (.unary op)
  | .choice c t f => evaluate scope c (.branch scope "ternary" t f)
  | .ifElse c t f => evaluate scope c (.branch scope "if" t f)
  | .forLoop name first last body => evaluate scope first (.bound scope name last body)
  | .block ns => statements host scope ns .none
  | .declare name params body => do
    Eval.define scope name (.function params body scope name)
    give .none
  | .call name args => do
    match ← Eval.lookup scope name with
    | .function params body home fname =>
      arguments host scope ⟨name, params, body, home, fname⟩ [] args
    | v => Eval.fail (.runtime (.notAFunction name v.kind))
  | .print e => evaluate scope e .print
  | .read e => evaluate scope e .read
  | .split s d => evaluate scope s (.delimiter scope d)

end Steps

/-- A step at a value, for the task that waits for it. -/
def resume (host : Host) : Task → Value → Eval Move
  | .assign scope name, v => do
    Eval.assign scope name v
    let text ← Eval.ofExcept v.textOf
    Eval.note host scope (name ++ " = " ++ text)
    give v
  | .right scope op r, v => evaluate scope r (.binary op v)
  | .binary op x, v => finish (Eval.ofExcept (op.apply x v))
  | .unary op, v => finish (Eval.ofExcept (op.apply v))
  | .branch scope construct yes no, v => do
    if ← Eval.condition construct v then goOn scope yes else goOn scope no
  | .bound scope name last body, v =>
    match v with
    | .int a => evaluate scope last (.loop scope name a body)
    | _ => give .none
  | .loop scope name a body, v =>
    match v with
    | .int b => do
      let bounds ← Eval.textsOf [.int a, .int b]
      Eval.note host scope ("for " ++ name ++ " in " ++ "..".intercalate bounds)
      turn scope name a b body .none
    | _ => give .none
  | .turn scope name next last body, v => turn scope name next last body v
  | .rest scope ns, v => statements host scope ns v
  | .argument scope callee done ns, v => arguments host scope callee (done ++ [v]) ns
  | .print, v => finish (Eval.print v)
  | .read, v => finish (Eval.contents host v)
  | .delimiter scope d, v => evaluate scope d (.split v)
  | .split x, v => finish (Eval.ofExcept (Value.split x v))
  | .fill scope inner done ss, v => do
    let text ← shown host scope inner v.textOf
    fill host scope (done ++ text) ss

/-- A step at a failure: only a placeholder keeps it from going on to the next task. -/
def unwind (host : Host) : Task → Failure → Eval Move
  | .fill scope inner done ss, e => do
    let text ← shown host scope inner (.error e)
    fill host scope (done ++ text) ss
  | _, e => Eval.fail e

/-- One step. With an outcome and no task left the machine has halted. -/
def step (host : Host) : State → Option State
  | ⟨.eval scope n, tasks, w⟩ => some (.after (begin host scope n) tasks w)
  | ⟨.give v, task :: tasks, w⟩ => some (.after (resume host task v) tasks w)
  | ⟨.raise e, task :: tasks, w⟩ => some (.after (unwind host task e) tasks w)
  | ⟨.give _, [], _⟩ | ⟨.raise _, [], _⟩ => none

/-- The state after so many steps, or the state at which the machine has halted before. -/
def run (host : Host) : Nat → State → State
  | 0, s => s
  | count + 1, s =>
    match step host s with
    | some t => run host count t
    | none => s

end Kestrel.Machine
