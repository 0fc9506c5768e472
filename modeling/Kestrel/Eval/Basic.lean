import Kestrel.Files.Basic
import Kestrel.Scope.Store

/-!
# Computations

A computation changes a world and ends with a value or a failure. What it changed before a failure
stays changed.

* `World` — what a computation can change: the scopes, the text printed so far and the trace;
* `Stack` — what the stack of the host has room for;
* `Host` — what it cannot change: the files, whether a trace is kept, and the stack;
* `Eval` — computations, a monad, with the elementary ones: `Eval.fail`, `Eval.lookup`,
  `Eval.assign`, `Eval.define`, `Eval.newScope`, `Eval.write`, `Eval.note`.
-/

namespace Kestrel

/-- What a computation can change. -/
structure World where
  /-- the scopes -/
  store : Store
  /-- the text printed so far -/
  output : String
  /-- the trace so far -/
  trace : String
  deriving Inhabited

/-- What the stack of the host has room for.

The language sets no limit of its own. How deep a program may go is up to the host, so the numbers are
left open, but for one thing: the lines of a trace take room that would otherwise hold calls. All calls
count alike, wherever in the body of a function they stand. -/
structure Stack where
  /-- how many calls may lie inside each other -/
  calls : Nat
  /-- how many may where a trace is kept -/
  tracedCalls : Nat
  /-- a trace never makes room -/
  tracedCalls_le : tracedCalls ≤ calls
  /-- is there room to read this text? -/
  reads : String → Bool
  /-- is there room to outline this node? -/
  outlines : Node → Bool

/-- A stack with room for so many calls, and for everything else. -/
def Stack.ofCalls (calls : Nat) : Stack where
  calls := calls
  tracedCalls := calls
  tracedCalls_le := Nat.le_refl calls
  reads _ := true
  outlines _ := true

/-- What a computation depends on and cannot change. -/
structure Host where
  /-- the files -/
  files : Files
  /-- is a trace kept? -/
  debug : Bool
  /-- the stack -/
  stack : Stack

/-- How many calls may lie inside each other. -/
def Host.calls (host : Host) : Nat :=
  if host.debug then host.stack.tracedCalls else host.stack.calls

/-- A computation: it takes a world to a value or a failure, and to a world. -/
def Eval (α : Type) : Type := World → Except Failure α × World

namespace Eval

variable {α β : Type}

/-- The computation that only has a value. -/
@[inline] protected def pure (a : α) : Eval α := fun w => (.ok a, w)

/-- One computation after another, unless the first one fails. -/
@[inline] protected def bind (m : Eval α) (f : α → Eval β) : Eval β := fun w =>
  match m w with
  | (.ok a, w') => f a w'
  | (.error e, w') => (.error e, w')

instance : Monad Eval where
  pure := Eval.pure
  bind := Eval.bind

@[simp] theorem pure_run (a : α) (w : World) : (pure a : Eval α) w = (.ok a, w) := rfl

theorem bind_run (m : Eval α) (f : α → Eval β) (w : World) :
    (m >>= f) w =
      match m w with
      | (.ok a, w') => f a w'
      | (.error e, w') => (.error e, w') := rfl

@[simp] theorem pure_bind (a : α) (f : α → Eval β) : (pure a >>= f) = f a := rfl

theorem bind_pure (m : Eval α) : (m >>= fun a => pure a) = m := by
  funext w
  rw [bind_run]
  rcases m w with ⟨_ | a, w'⟩ <;> rfl

theorem bind_assoc {γ : Type} (m : Eval α) (f : α → Eval β) (g : β → Eval γ) :
    (m >>= f) >>= g = m >>= fun a => f a >>= g := by
  funext w
  simp only [bind_run]
  rcases m w with ⟨_ | a, w'⟩ <;> rfl

/-- The computation that fails. -/
def fail (e : Failure) : Eval α := fun w => (.error e, w)

/-- A result as a computation that changes nothing. -/
def ofExcept (r : Except Failure α) : Eval α := fun w => (r, w)

/-- What a function of the scopes gives. -/
def read (f : Store → α) : Eval α := fun w => (.ok (f w.store), w)

/-- Changes the scopes. -/
def modify (f : Store → Store) : Eval Unit := fun ⟨store, output, trace⟩ =>
  (.ok (), ⟨f store, output, trace⟩)

/-- The value of a name, which must be bound. -/
def lookup (scope : ScopeId) (name : String) : Eval Value := fun w =>
  match w.store.lookup? scope name with
  | some v => (.ok v, w)
  | none => (.error (.runtime (.undefinedVariable name)), w)

/-- Binds a name in the scope itself. -/
def define (scope : ScopeId) (name : String) (value : Value) : Eval Unit :=
  modify fun s => s.define scope name value

/-- Gives a value to a name where it is bound, or else in the scope itself. -/
def assign (scope : ScopeId) (name : String) (value : Value) : Eval Unit :=
  modify fun s => s.assign scope name value

/-- Makes a scope inside `parent` and gives its number. -/
def newScope (parent : ScopeId) (bindings : Bindings) : Eval ScopeId :=
  fun ⟨store, output, trace⟩ =>
    (.ok store.size, ⟨store.push (some parent) bindings, output, trace⟩)

/-- Prints a text. -/
def write (text : String) : Eval Unit := fun ⟨store, output, trace⟩ =>
  (.ok (), ⟨store, output ++ text, trace⟩)

/-- Adds a line to the trace, if one is kept. -/
def traceLine (host : Host) (line : Store → String) : Eval Unit := fun w =>
  if host.debug then (.ok (), { w with trace := w.trace ++ line w.store ++ "\n" }) else (.ok (), w)

/-- Notes in the trace what happens in a scope, indented by the depth of the scope. -/
def note (host : Host) (scope : ScopeId) (message : String) : Eval Unit :=
  traceLine host fun s =>
    String.ofList (List.replicate (2 * s.depth scope) ' ') ++ "[eval] " ++ message

end Eval

end Kestrel
