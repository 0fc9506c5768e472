import Kestrel.Proofs.Templates.Rendered

/-!
# Nodes that only look

A tree in which no name is given a value, nothing is called or declared, no loop is run and nothing is
printed only looks at the scopes and the files. Its evaluation leaves all scopes and the output as they
are, also where it fails, and what it ends with depends on the scopes alone. So it can be evaluated any
number of times. The placeholders of a template are read while it is evaluated; whatever stands in them,
they are read as trees of this kind.

* `Node.Effectless` — such a tree;
* `Eval.Looks` — a computation that only looks: what it ends with is a function of the scopes, and it
  changes nothing but the trace, which it only adds to;
* `Node.looks_evalWithin` — the evaluation of such a tree only looks;
* `Node.effectless_repeatable` — what that means for the world after one evaluation, and for the next one.
-/

namespace Kestrel

/-! ### Trees without effects -/

namespace Node

/-- Can the evaluation of the node itself, apart from the nodes below it, change the scopes or the
output? -/
def isEffect : Node → Bool
  | assign _ _ | forLoop _ _ _ _ | declare _ _ _ | call _ _ | print _ => true
  | _ => false

/-- No node of the tree has an effect. -/
def Effectless (n : Node) : Prop := n.findAll isEffect = []

variable {n : Node}

theorem effectless_iff : n.Effectless ↔ n.isEffect = false ∧ ∀ m ∈ n.children, m.Effectless := by
  rw [Effectless, findAll_eq, List.append_eq_nil_iff, List.flatMap_eq_nil_iff]
  simp [Effectless]

theorem Effectless.isEffect (h : n.Effectless) : n.isEffect = false := (effectless_iff.mp h).1

theorem Effectless.child (h : n.Effectless) : ∀ m ∈ n.children, m.Effectless := (effectless_iff.mp h).2

end Node

/-- Whatever is read inside a placeholder, its tree has no effects. -/
theorem Template.Formula.effectless_toNode (f : Formula) : f.toNode.Effectless := by
  induction f with
  | int value => exact Node.effectless_iff.mpr ⟨rfl, List.forall_mem_nil _⟩
  | var name => exact Node.effectless_iff.mpr ⟨rfl, List.forall_mem_nil _⟩
  | binary op l r ihl ihr =>
    exact Node.effectless_iff.mpr ⟨rfl, by simpa [toNode, Node.children] using ⟨ihl, ihr⟩⟩

/-! ### Computations that only look -/

namespace Eval

variable {α β : Type}

/-- The computation ends as the scopes say, and changes nothing but the trace, which it adds to. -/
def Looks (m : Eval α) : Prop :=
  ∃ outcome : Store → Except Failure α, ∀ w, ∃ text,
    m w = (outcome w.store, w.withTrace (w.trace ++ text))

namespace Looks

theorem of_unchanged {m : Eval α} (outcome : Store → Except Failure α)
    (h : ∀ w, m w = (outcome w.store, w)) : Looks m :=
  ⟨outcome, fun w => ⟨"", by rw [h, String.append_empty, World.withTrace_self]⟩⟩

theorem ofExcept (r : Except Failure α) : Looks (ofExcept r) := of_unchanged (fun _ => r) fun _ => rfl

theorem pure (a : α) : Looks (pure a) := ofExcept (.ok a)

theorem fail (e : Failure) : Looks (fail e : Eval α) := ofExcept (.error e)

theorem read (f : Store → α) : Looks (read f) := of_unchanged (fun s => .ok (f s)) fun _ => rfl

theorem lookup (scope : ScopeId) (name : String) : Looks (lookup scope name) := by
  refine of_unchanged
    (fun s => (s.lookup? scope name).elim (.error (.runtime (.undefinedVariable name))) .ok) fun w => ?_
  rw [Eval.lookup]
  cases w.store.lookup? scope name <;> rfl

/-- What a note says depends on the scopes, but nothing depends on what it says. -/
theorem note (host : Host) (scope : ScopeId) (message : String) : Looks (note host scope message) := by
  refine ⟨fun _ => .ok (), fun w => ?_⟩
  rw [Eval.note, Eval.traceLine]
  split
  · exact ⟨_, congrArg (Except.ok (), w.withTrace ·) (String.append_assoc ..)⟩
  · exact ⟨"", by rw [String.append_empty, World.withTrace_self]⟩

/-- The second computation looks at the scopes that the first one has left alone. -/
theorem bind {m : Eval α} {f : α → Eval β} (hm : Looks m) (hf : ∀ a, Looks (f a)) :
    Looks (m >>= f) := by
  obtain ⟨outcome, hm⟩ := hm
  choose outcome' hf using hf
  refine ⟨fun s => outcome s >>= fun a => outcome' a s, fun w => ?_⟩
  obtain ⟨text, hw⟩ := hm w
  rw [bind_run, hw]
  dsimp only
  cases outcome w.store with
  | error e => exact ⟨text, rfl⟩
  | ok a =>
    obtain ⟨text', hw'⟩ := hf a (w.withTrace (w.trace ++ text))
    refine ⟨text ++ text', hw'.trans ?_⟩
    exact congrArg (outcome' a w.store, w.withTrace ·) (String.append_assoc ..)

theorem condition (construct : String) (v : Value) : Looks (condition construct v) := by
  cases v with
  | bool b => exact pure b
  | _ => exact fail _

theorem contents (host : Host) (v : Value) : Looks (contents host v) := by
  refine bind (ofExcept _) fun path => ?_
  split
  · exact fail _
  · exact fail _
  · exact pure _

/-- A failure in a placeholder is noted, and has no other effect. -/
theorem segment (host : Host) (scope : ScopeId) (s : Template.Segment) :
    Looks (segment host scope s) := by
  cases s with
  | text chars => exact pure _
  | placeholder inner =>
    refine bind (read _) fun r => ?_
    rcases r with ⟨e | e⟩ | text
    · exact bind (note host scope _) fun _ => pure _
    · exact fail _
    · exact pure text

theorem segments (host : Host) (scope : ScopeId) (ss : List Template.Segment) :
    Looks (segments host scope ss) := by
  induction ss with
  | nil => exact pure ""
  | cons s ss ih => exact bind (segment host scope s) fun _ => bind ih fun _ => pure _

theorem template (host : Host) (scope : ScopeId) (text : String) :
    Looks (template host scope text) := bind (segments host scope _) fun _ => pure _

end Looks

end Eval

/-! ### Evaluation -/

section

variable (host : Host) (run : Runner) (scope : ScopeId)

mutual

/-- The evaluation of a tree without effects only looks. It comes to no call, so it does not matter how
the bodies of called functions are run. -/
theorem Node.looks_evalWith : (n : Node) → n.Effectless → (n.evalWith host run scope).Looks
  | .int _, _ | .str _, _ | .bool _, _ | .none, _ => .pure _
  | .template text, _ => .template host scope text
  | .var name, _ => .lookup scope name
  | .unary op e, h =>
    have he : e.Effectless := h.child e (by simp [children])
    .bind (Node.looks_evalWith e he) fun _ => .ofExcept _
  | .read e, h =>
    have he : e.Effectless := h.child e (by simp [children])
    .bind (Node.looks_evalWith e he) fun v => .contents host v
  | .binary _ l r, h | .split l r, h =>
    have hl : l.Effectless := h.child l (by simp [children])
    have hr : r.Effectless := h.child r (by simp [children])
    .bind (Node.looks_evalWith l hl) fun _ => .bind (Node.looks_evalWith r hr) fun _ => .ofExcept _
  | .choice c t f, h | .ifElse c t f, h => by
    have hc : c.Effectless := h.child c (by simp [children])
    have ht : t.Effectless := h.child t (by simp [children])
    have hf : f.Effectless := h.child f (by simp [children])
    refine .bind (Node.looks_evalWith c hc) fun v => .bind (.condition _ v) fun b => ?_
    split
    · exact Node.looks_evalWith t ht
    · exact Node.looks_evalWith f hf
  | .block ns, h => Node.looks_evalBlock ns h.child .none
  | .assign _ _, h | .forLoop _ _ _ _, h | .declare _ _ _, h | .call _ _, h | .print _, h =>
    absurd h.isEffect (by simp [isEffect])

/-- The same for several statements. -/
theorem Node.looks_evalBlock : (ns : List Node) → (∀ n ∈ ns, n.Effectless) → (last : Value) →
    (Node.evalBlock host run scope ns last).Looks
  | [], _, last => .pure last
  | n :: ns, h, _ =>
    have hn : n.Effectless := h n List.mem_cons_self
    have hns : ∀ m ∈ ns, m.Effectless := fun m hm => h m (List.mem_cons_of_mem n hm)
    .bind (.note host scope n.label) fun _ => .bind (Node.looks_evalWith n hn) fun v =>
      Node.looks_evalBlock ns hns v

end

/-- The same, however deep calls may lie inside each other. -/
theorem Node.looks_evalWithin (calls : Nat) {n : Node} (h : n.Effectless) :
    (n.evalWithin host calls scope).Looks := by
  cases calls with
  | zero | succ => exact n.looks_evalWith host _ scope h

end

/-- Whether it succeeds or fails, the evaluation of a tree without effects leaves every scope and the output
as they are and makes no scope, and another evaluation ends with the same, in the world the first one leaves
and in every world with these scopes. A template is no exception: what stands in a placeholder is always
read as a tree without effects, whose value is what takes its place. -/
theorem Node.effectless_repeatable {n : Node} (h : n.Effectless) (host : Host) (calls : Nat)
    (scope : ScopeId) (w : World) :
    (n.evalWithin host calls scope w).2.store = w.store ∧
      (n.evalWithin host calls scope w).2.output = w.output ∧
      (n.evalWithin host calls scope (n.evalWithin host calls scope w).2).1 =
        (n.evalWithin host calls scope w).1 ∧
      (∀ w', w'.store = w.store →
        (n.evalWithin host calls scope w').1 = (n.evalWithin host calls scope w).1) ∧
      ∀ inner f, Template.Formula.read (w.store.contains scope) inner = .ok f →
        f.toNode.Effectless ∧ Template.placeholderText w.store scope inner =
          (f.toNode.evalWithin host calls scope w).1 >>= Value.textOf := by
  obtain ⟨outcome, hn⟩ := looks_evalWithin host scope calls h
  obtain ⟨text, hw⟩ := hn w
  have hsame (w' : World) (hstore : w'.store = w.store) :
      (n.evalWithin host calls scope w').1 = (n.evalWithin host calls scope w).1 := by
    obtain ⟨text', hw'⟩ := hn w'
    rw [hw', hw, hstore]
  refine ⟨?_, ?_, hsame _ ?_, hsame, fun inner f hf => ⟨f.effectless_toNode, ?_⟩⟩
  · rw [hw]
    rfl
  · rw [hw]
    rfl
  · rw [hw]
    rfl
  · rw [← Template.placeholderOutcome_eq host calls, Template.placeholderOutcome, hf]
    rfl

/-- A choice between a template and a division by zero, depending on a name. -/
def guardedDivision : Node :=
  .choice (.binary .equal (.var "x") (.int 1)) (.template "$\x7bx\x7d") (.binary .div (.int 1) (.int 0))

/-- Where the name is bound to two the division fails, the first time and the second time. -/
theorem Node.effectless_repeatable_failing :
    let w : World := ⟨.root [("x", .int 2)], "", ""⟩
    let first := guardedDivision.evalWithin ⟨Files.empty, true, .ofCalls 1000⟩ 1 0 w
    guardedDivision.Effectless ∧ first.1 = .error (.runtime .divisionByZero) ∧
      first.2.store = w.store ∧ first.2.output = "" ∧
      (guardedDivision.evalWithin ⟨Files.empty, true, .ofCalls 1000⟩ 1 0 first.2).1 = first.1 := by
  intro w first
  have heffectless : guardedDivision.Effectless := by
    simp [guardedDivision, Effectless, findAll_eq, children, isEffect]
  obtain ⟨hstore, houtput, hagain, -⟩ :=
    effectless_repeatable heffectless ⟨Files.empty, true, .ofCalls 1000⟩ 1 0 w
  refine ⟨heffectless, ?_, hstore, houtput, hagain⟩
  simp [first, w, guardedDivision, evalWithin, evalWith, Eval.bind_run, Eval.lookup, Eval.ofExcept,
    BinaryOp.apply, Eval.condition]
  rfl

end Kestrel
