import Kestrel.Proofs.Scopes.Apart
import Kestrel.Proofs.Scopes.Reach
import Kestrel.Session

/-!
# Evaluation does not leave the scopes it can reach

Two runs of one node are compared, in stores that bind the same wherever one can get to from the
scope of the node and differ elsewhere. The runs give the same value or the same failure, print and
trace the same, and leave everything else in the two stores alone.

What can be reached changes during a run, so the comparison is made on a fixed set of scopes instead:
those that can be reached at the start, and all that are not there yet. The two stores stay coupled
on this set from one step to the next, and values passed on lead only into it.

* `Isolated` — what is said of two runs;
* `Linked`, `Eval.Blind` — two outcomes that do not differ in the set, and computations for which
  coupled stores lead to such outcomes;
* `Node.blind_evalWithin` — evaluation is such a computation;
* `Node.isolated_evalWithin` — the statement for nodes and for calls.
-/

namespace Kestrel

open Store

/-- The same text was added to two texts. -/
def SameAddition (s₁ s₂ t₁ t₂ : String) : Prop := ∃ text, t₁ = s₁ ++ text ∧ t₂ = s₂ ++ text

theorem SameAddition.refl (s₁ s₂ : String) : SameAddition s₁ s₂ s₁ s₂ :=
  ⟨"", String.append_empty.symm, String.append_empty.symm⟩

theorem SameAddition.trans {s₁ s₂ t₁ t₂ u₁ u₂ : String} (h : SameAddition s₁ s₂ t₁ t₂)
    (h' : SameAddition t₁ t₂ u₁ u₂) : SameAddition s₁ s₂ u₁ u₂ := by
  obtain ⟨text, rfl, rfl⟩ := h
  obtain ⟨text', rfl, rfl⟩ := h'
  exact ⟨text ++ text', String.append_assoc, String.append_assoc⟩

/-- Two runs from `w₁` and `w₂` end in the same way, and differ only in what cannot be reached from
the roots. -/
structure Isolated {α : Type} (roots : List ScopeId) (w₁ w₂ : World)
    (r₁ r₂ : Except Failure α × World) : Prop where
  /-- they give the same value or the same failure -/
  outcome : r₁.1 = r₂.1
  /-- they print the same text -/
  output : SameAddition w₁.output w₂.output r₁.2.output r₂.2.output
  /-- they trace the same text -/
  trace : SameAddition w₁.trace w₂.trace r₁.2.trace r₂.2.trace
  /-- they make the same scopes -/
  size : r₁.2.store.size = r₂.2.store.size
  /-- they give them the same parents -/
  parent? : ∀ i, r₁.2.store.parent? i = r₂.2.store.parent? i
  /-- they agree on what could be reached and on what was made -/
  bindings : ∀ i, w₁.store.Visible roots i → r₁.2.store.bindings i = r₂.2.store.bindings i
  /-- nothing else can be reached in the end -/
  reach : ∀ i, r₁.2.store.Reach roots i → w₁.store.Visible roots i
  /-- the first run leaves everything else as it was -/
  untouched₁ : Untouched (w₁.store.Visible roots) w₁.store r₁.2.store
  /-- and so does the second -/
  untouched₂ : Untouched (w₁.store.Visible roots) w₂.store r₂.2.store

/-- Two outcomes, from `w₁` and `w₂` on, that do not differ in the set, with what they give inside it. -/
structure Linked {α : Type} (A : ScopeId → Prop) (P : α → Prop) (w₁ w₂ : World)
    (r₁ r₂ : Except Failure α × World) : Prop where
  /-- the same value or the same failure -/
  outcome : r₁.1 = r₂.1
  /-- what is given has the property -/
  gives : ∀ a, r₁.1 = .ok a → P a
  /-- the same text is printed -/
  output : SameAddition w₁.output w₂.output r₁.2.output r₂.2.output
  /-- the same text is traced -/
  trace : SameAddition w₁.trace w₂.trace r₁.2.trace r₂.2.trace
  /-- the stores are coupled in the end -/
  coupled : Coupled A r₁.2.store r₂.2.store
  /-- the first run changes nothing outside the set -/
  untouched₁ : Untouched A w₁.store r₁.2.store
  /-- and neither does the second -/
  untouched₂ : Untouched A w₂.store r₂.2.store

/-- Nothing but the scopes changes, and they stay coupled. -/
theorem Linked.of_stores {α : Type} {A : ScopeId → Prop} {P : α → Prop} {w₁ w₂ : World}
    {r : Except Failure α} {s₁ s₂ : Store} (hgives : ∀ a, r = .ok a → P a)
    (hcoupled : Coupled A s₁ s₂) (h₁ : Untouched A w₁.store s₁) (h₂ : Untouched A w₂.store s₂) :
    Linked A P w₁ w₂ (r, { w₁ with store := s₁ }) (r, { w₂ with store := s₂ }) :=
  ⟨rfl, hgives, .refl _ _, .refl _ _, hcoupled, h₁, h₂⟩

theorem Store.inside_of_closures_eq_nil {A : ScopeId → Prop} {v : Value} (h : v.closures = []) :
    Inside A v := by
  intro f hf
  rw [h] at hf
  cases hf

/-- A placeholder is filled with the same text for coupled stores. -/
theorem Store.Coupled.eval_formula {A : ScopeId → Prop} {s₁ s₂ : Store} {scope : ScopeId}
    (h : Coupled A s₁ s₂) (hscope : A scope) (f : Template.Formula) :
    f.eval s₁ scope = f.eval s₂ scope := by
  induction f with
  | int n => rfl
  | var name => rw [Template.Formula.eval, Template.Formula.eval, h.lookup? hscope]
  | binary op l r ihl ihr => rw [Template.Formula.eval, Template.Formula.eval, ihl, ihr]

theorem Store.Coupled.placeholderText {A : ScopeId → Prop} {s₁ s₂ : Store} {scope : ScopeId}
    (h : Coupled A s₁ s₂) (hscope : A scope) (inner : List Char) :
    Template.placeholderText s₁ scope inner = Template.placeholderText s₂ scope inner := by
  rw [Template.placeholderText, Template.placeholderText, h.contains hscope]
  split
  case h_1 => rfl
  case h_2 f _ => rw [h.eval_formula hscope]

namespace Eval

variable {α β : Type} {A : ScopeId → Prop} {P : α → Prop} {Q : β → Prop} {scope : ScopeId}

/-- Coupled stores lead to outcomes that do not differ in the set. -/
def Blind (A : ScopeId → Prop) (m : Eval α) (P : α → Prop) : Prop :=
  ∀ w₁ w₂, Coupled A w₁.store w₂.store → Linked A P w₁ w₂ (m w₁) (m w₂)

namespace Blind

/-! ### Elementary computations -/

/-- A computation apart from the scopes. -/
theorem of_apart {m : Eval α} (h : m.Apart P) : Blind A m P := by
  obtain ⟨r, out, trace, hgives, hm⟩ := h
  intro w₁ w₂ h
  rw [hm w₁, hm w₂]
  exact ⟨rfl, hgives, ⟨out, rfl, rfl⟩, ⟨trace, rfl, rfl⟩, h, .refl, .refl⟩

/-- A computation apart from the scopes that gives no function. -/
theorem plain {m : Eval Value} (h : m.Apart fun v => v.closures = []) : Blind A m (Inside A) := by
  obtain ⟨r, out, trace, hgives, hm⟩ := h
  exact of_apart ⟨r, out, trace, fun v hv => inside_of_closures_eq_nil (hgives v hv), hm⟩

theorem pure {a : α} (ha : P a) : Blind A (pure a) P := of_apart (.pure ha)

theorem bind {m : Eval α} {f : α → Eval β} (hm : Blind A m P) (hf : ∀ a, P a → Blind A (f a) Q) :
    Blind A (m >>= f) Q := by
  intro w₁ w₂ h
  have hfirst := hm w₁ w₂ h
  rw [bind_run, bind_run]
  rcases hw₁ : m w₁ with ⟨r₁, w₁'⟩
  rcases hw₂ : m w₂ with ⟨r₂, w₂'⟩
  rw [hw₁, hw₂] at hfirst
  obtain ⟨rfl, hgives, hout, htrace, hcoupled, hkept₁, hkept₂⟩ := hfirst
  -- both runs stop here or both go on, from stores that are coupled again
  cases r₁ with
  | error e => exact ⟨rfl, nofun, hout, htrace, hcoupled, hkept₁, hkept₂⟩
  | ok a =>
    have hrest := hf a (hgives a rfl) w₁' w₂' hcoupled
    exact ⟨hrest.outcome, hrest.gives, hout.trans hrest.output, htrace.trans hrest.trace,
      hrest.coupled, hkept₁.trans hrest.untouched₁, hkept₂.trans hrest.untouched₂⟩

/-- A function of the scopes that is the same for coupled stores. -/
theorem read {f : Store → α} (hf : ∀ s₁ s₂, Coupled A s₁ s₂ → f s₁ = f s₂) :
    Blind A (read f) fun _ => True := by
  intro w₁ w₂ h
  rw [Eval.read, Eval.read, hf _ _ h]
  exact .of_stores (fun _ _ => True.intro) h .refl .refl

/-- The trace shows how deep a scope lies, which is the same for coupled stores. -/
theorem note (host : Host) (scope : ScopeId) (message : String) :
    Blind A (note host scope message) fun _ => True := by
  intro w₁ w₂ h
  rw [Eval.note, Eval.traceLine, Eval.traceLine, h.depth]
  split
  · exact ⟨rfl, fun _ _ => True.intro, .refl _ _, ⟨_, String.append_assoc, String.append_assoc⟩, h,
      .refl, .refl⟩
  · exact .of_stores (fun _ _ => True.intro) h .refl .refl

theorem lookup (hscope : A scope) (name : String) : Blind A (lookup scope name) (Inside A) := by
  intro w₁ w₂ h
  rw [Eval.lookup, Eval.lookup, ← h.lookup? hscope]
  split
  case h_1 v hv =>
    refine .of_stores ?_ h .refl .refl
    rintro _ ⟨⟩
    exact h.inside_of_lookup? hscope hv
  case h_2 => exact .of_stores nofun h .refl .refl

theorem define (hscope : A scope) {v : Value} (hv : Inside A v) (name : String) :
    Blind A (define scope name v) fun _ => True :=
  fun _ _ h => .of_stores (fun _ _ => True.intro) (h.define hscope hv) (.define hscope)
    (.define hscope)

theorem assign (hscope : A scope) {v : Value} (hv : Inside A v) (name : String) :
    Blind A (assign scope name v) fun _ => True :=
  fun _ _ h => .of_stores (fun _ _ => True.intro) (h.assign hscope hv) (h.untouched_assign hscope)
    (h.symm.untouched_assign hscope)

theorem newScope {home : ScopeId} (hhome : A home) {bs : Bindings}
    (hbs : ∀ f ∈ bs.closures, A f.home) : Blind A (newScope home bs) A := by
  intro w₁ w₂ h
  refine ⟨congrArg Except.ok h.size, ?_, .refl _ _, .refl _ _, h.push hhome hbs, .push h,
    .push h.symm⟩
  rintro _ ⟨⟩
  exact h.new_mem _ (Nat.le_refl _)

/-! ### Templates, loops and calls -/

theorem segment (host : Host) (hscope : A scope) (s : Template.Segment) :
    Blind A (segment host scope s) fun _ => True := by
  cases s with
  | text chars => exact pure True.intro
  | placeholder inner =>
    refine bind (read fun s₁ s₂ h => h.placeholderText hscope inner) fun r _ => ?_
    rcases r with ⟨e | e⟩ | text
    · exact bind (note host scope _) fun _ _ => pure True.intro
    · exact of_apart (.fail _)
    · exact pure True.intro

theorem segments (host : Host) (hscope : A scope) (ss : List Template.Segment) :
    Blind A (segments host scope ss) fun _ => True := by
  induction ss with
  | nil => exact pure True.intro
  | cons s ss ih =>
    exact bind (segment host hscope s) fun _ _ => bind ih fun _ _ => pure True.intro

theorem template (host : Host) (hscope : A scope) (text : String) :
    Blind A (template host scope text) (Inside A) :=
  bind (segments host hscope _) fun _ _ => pure (inside_of_closures_eq_nil rfl)

theorem forEach {body : Int → Eval Value} (hbody : ∀ i, Blind A (body i) (Inside A)) (count : Nat)
    (first : Int) {last : Value} (hlast : Inside A last) :
    Blind A (forEach body count first last) (Inside A) := by
  induction count generalizing first last with
  | zero => exact pure hlast
  | succ count ih => exact bind (hbody first) fun v hv => ih (first + 1) hv

/-- A call stays in the set if the scope of the function and those of the arguments belong to it: the
scope made for the call does too. -/
theorem invoke {run : Runner} (hrun : ∀ scope n, A scope → Blind A (run scope n) (Inside A))
    {f : Closure} (hf : A f.home) {args : List Value} (hargs : ∀ v ∈ args, Inside A v) :
    Blind A (invoke run f.params f.body f.home f.name args) (Inside A) := by
  rw [Eval.invoke]
  split
  · exact of_apart (.fail _)
  · refine bind (newScope hf fun g hg => ?_) fun scope hscope => hrun scope f.body hscope
    obtain ⟨v, hv, hg⟩ := Value.mem_closuresOfAll.mp (Bindings.mem_closures_ofList_zip hg)
    exact hargs v hv g hg

end Blind

end Eval

/-! ### Evaluation -/

section

variable {A : ScopeId → Prop} {scope : ScopeId} {host : Host} {run : Runner}

mutual

/-- Evaluation of a node in a scope of the set does not look outside the set. -/
theorem Node.blind_evalWith (hscope : A scope)
    (hrun : ∀ scope n, A scope → (run scope n).Blind A (Inside A)) :
    (n : Node) → (n.evalWith host run scope).Blind A (Inside A)
  | .int _ | .str _ | .bool _ | .none => .pure (inside_of_closures_eq_nil rfl)
  | .template text => .template host hscope text
  | .var name => .lookup hscope name
  | .assign name e =>
    .bind (e.blind_evalWith hscope hrun) fun v hv => .bind (.assign hscope hv name) fun _ _ =>
      .bind (.of_apart (.ofExcept fun _ _ => True.intro)) fun _ _ =>
        .bind (.note host scope _) fun _ _ => .pure hv
  | .unary op e =>
    .bind (e.blind_evalWith hscope hrun) fun v _ => .plain (.unary op v)
  | .print e => .bind (e.blind_evalWith hscope hrun) fun v _ => .plain (.print v)
  | .read e => .bind (e.blind_evalWith hscope hrun) fun v _ => .plain (.contents host v)
  | .binary op l r =>
    .bind (l.blind_evalWith hscope hrun) fun x _ => .bind (r.blind_evalWith hscope hrun) fun y _ =>
      .plain (.binary op x y)
  | .split l r =>
    .bind (l.blind_evalWith hscope hrun) fun x _ => .bind (r.blind_evalWith hscope hrun) fun y _ =>
      .plain (.split x y)
  | .choice c t f | .ifElse c t f => by
    refine .bind (c.blind_evalWith hscope hrun) fun v _ => ?_
    refine .bind (.of_apart (.condition _ v)) fun b _ => ?_
    split
    · exact t.blind_evalWith hscope hrun
    · exact f.blind_evalWith hscope hrun
  | .forLoop name first last body => by
    refine .bind (first.blind_evalWith hscope hrun) fun v _ => ?_
    split
    · refine .bind (last.blind_evalWith hscope hrun) fun v _ => ?_
      split
      · refine .bind (.of_apart (.textsOf _)) fun _ _ => .bind (.note host scope _) fun _ _ => ?_
        refine .forEach (fun i => ?_) _ _ (inside_of_closures_eq_nil rfl)
        refine .bind (.assign hscope (inside_of_closures_eq_nil rfl) name) fun _ _ => ?_
        exact body.blind_evalWith hscope hrun
      · exact .pure (inside_of_closures_eq_nil rfl)
    · exact .pure (inside_of_closures_eq_nil rfl)
  | .block ns => Node.blind_evalBlock hscope hrun ns (inside_of_closures_eq_nil rfl)
  | .declare name params body => by
    have hself : Inside A (.function params body scope name) := by
      intro f hf
      rw [List.mem_singleton.mp hf]
      exact hscope
    refine .bind (.define hscope hself name) fun _ _ => .pure (inside_of_closures_eq_nil rfl)
  | .call name args => by
    refine .bind (.lookup hscope name) fun v hv => ?_
    split
    case h_1 params body home fname =>
      refine .bind (Node.blind_evalArgs hscope hrun args) fun vs hvs => ?_
      refine .bind (.of_apart (.textsOf _)) fun _ _ => .bind (.note host scope _) fun _ _ => ?_
      -- the function was found from a scope of the set, so its own scope belongs to it
      have hhome : A home := hv ⟨params, body, home, fname⟩ List.mem_cons_self
      exact .invoke (f := ⟨params, body, home, fname⟩) hrun hhome hvs
    case h_2 => exact .of_apart (.fail _)

/-- The same for several statements. -/
theorem Node.blind_evalBlock (hscope : A scope)
    (hrun : ∀ scope n, A scope → (run scope n).Blind A (Inside A)) :
    (ns : List Node) → {last : Value} → Inside A last →
    (Node.evalBlock host run scope ns last).Blind A (Inside A)
  | [], _, hlast => .pure hlast
  | n :: ns, _, _ =>
    .bind (.note host scope _) fun _ _ => .bind (n.blind_evalWith hscope hrun) fun _ hv =>
      Node.blind_evalBlock hscope hrun ns hv

/-- The same for several arguments. -/
theorem Node.blind_evalArgs (hscope : A scope)
    (hrun : ∀ scope n, A scope → (run scope n).Blind A (Inside A)) :
    (ns : List Node) →
    (Node.evalArgs host run scope ns).Blind A fun vs => ∀ v ∈ vs, Inside A v
  | [] => .pure nofun
  | n :: ns =>
    .bind (n.blind_evalWith hscope hrun) fun _ hv =>
      .bind (Node.blind_evalArgs hscope hrun ns) fun _ hvs =>
        .pure (List.forall_mem_cons.mpr ⟨hv, hvs⟩)

end

end

/-- Evaluation with any bound on the depth of calls does not look outside the set. -/
theorem Node.blind_evalWithin {A : ScopeId → Prop} (host : Host) (calls : Nat) (scope : ScopeId)
    (n : Node) (hscope : A scope) : (n.evalWithin host calls scope).Blind A (Inside A) := by
  induction calls generalizing scope n with
  | zero => exact n.blind_evalWith hscope fun _ _ _ => .of_apart (.fail _)
  | succ calls ih => exact n.blind_evalWith hscope ih

/-! ### Isolation -/

/-- From stores that agree wherever one can get to from the roots, a computation that does not look
further runs in the same way. -/
theorem isolated_of_blind {α : Type} {P : α → Prop} {roots : List ScopeId} {w₁ w₂ : World}
    (h : AgreesFrom roots w₁.store w₂.store) {m : Eval α}
    (hm : m.Blind (w₁.store.Visible roots) P) : Isolated roots w₁ w₂ (m w₁) (m w₂) := by
  have hlinked := hm w₁ w₂ h.coupled
  exact {
    outcome := hlinked.outcome
    output := hlinked.output
    trace := hlinked.trace
    size := hlinked.coupled.size
    parent? := hlinked.coupled.parent?
    bindings := hlinked.coupled.bindings
    reach := fun i hi => hlinked.coupled.mem_of_reach (fun r hr => .inl (.root hr)) hi
    untouched₁ := hlinked.untouched₁
    untouched₂ := hlinked.untouched₂ }

/-- The scopes from which a call starts: that of the declaration of the function, and those of the
functions among the arguments. -/
def callRoots (f : Closure) (args : List Value) : List ScopeId :=
  f.home :: (Value.closuresOfAll args).map (·.home)

/-- Scopes that cannot be reached are neither read nor written, however deep calls may lie inside each
other. Evaluating a node in two stores that agree wherever one can get to from its scope gives the same
value or the same failure, the same output and the same trace. In the end the stores agree on all that
could be reached at first and on all scopes made since, nothing else can be reached now, and what could
not be reached is as it was.

The same holds of a call, from the scope of the function and the functions among its arguments on. So
a call neither sees nor changes the variables of its caller, unless the caller's scope can be reached
from there. -/
theorem Node.isolated_evalWithin (host : Host) (calls : Nat) (w₁ w₂ : World) :
    (∀ (n : Node) (scope : ScopeId), AgreesFrom [scope] w₁.store w₂.store →
      Isolated [scope] w₁ w₂ (n.evalWithin host calls scope w₁)
        (n.evalWithin host calls scope w₂)) ∧
    ∀ (f : Closure) (args : List Value), AgreesFrom (callRoots f args) w₁.store w₂.store →
      Isolated (callRoots f args) w₁ w₂
        (Eval.invoke (Node.evalWithin host calls) f.params f.body f.home f.name args w₁)
        (Eval.invoke (Node.evalWithin host calls) f.params f.body f.home f.name args w₂) := by
  constructor
  · intro n scope h
    have hscope : w₁.store.Visible [scope] scope := .inl (.root List.mem_cons_self)
    exact isolated_of_blind h (n.blind_evalWithin host calls scope hscope)
  · intro f args h
    have hroots : ∀ r ∈ callRoots f args, w₁.store.Visible (callRoots f args) r :=
      fun r hr => .inl (.root hr)
    refine isolated_of_blind h (.invoke (fun scope n => n.blind_evalWithin host calls scope) ?_ ?_)
    · exact hroots _ List.mem_cons_self
    · intro v hv g hg
      refine hroots _ (List.mem_cons_of_mem _ (List.mem_map_of_mem ?_))
      exact Value.mem_closuresOfAll.mpr ⟨v, hv, hg⟩

/-- A global scope with a function that reads `x`, and inside it the scope of a caller who has an `x` of
its own. -/
def storeOfCaller (x : Value) : Store :=
  (Store.root [("f", .function [] (.var "x") Session.globalScope "f")]).push
    (some Session.globalScope) [("x", x)]

/-- The caller's scope cannot be reached from the global one. -/
theorem eq_globalScope_of_reach {x : Value} {i : ScopeId}
    (h : (storeOfCaller x).Reach [Session.globalScope] i) : i = Session.globalScope := by
  induction h with
  | root hi => exact List.mem_singleton.mp hi
  | parent _ hp ih =>
    cases ih
    cases hp
  | captured _ hv hf ih =>
    cases ih
    cases List.mem_singleton.mp hv
    cases List.mem_singleton.mp hf
    rfl

theorem agreesFrom_storeOfCaller (x y : Value) :
    AgreesFrom [Session.globalScope] (storeOfCaller x) (storeOfCaller y) where
  size := rfl
  parent? i := by
    rw [storeOfCaller, storeOfCaller, parent?_push, parent?_push]
  bindings i hi := by
    rw [eq_globalScope_of_reach hi]
    rfl

/-- A function does not see the `x` of its caller, whether its name is looked up in the global scope or
it is called at once. -/
theorem isolated_storeOfCaller :
    Isolated [Session.globalScope] ⟨storeOfCaller (.int 1), "", ""⟩ ⟨storeOfCaller (.str "x"), "", ""⟩
        ((Node.call "f" []).evalWithin ⟨Files.empty, true, .ofCalls 1000⟩ 1 Session.globalScope
          ⟨storeOfCaller (.int 1), "", ""⟩)
        ((Node.call "f" []).evalWithin ⟨Files.empty, true, .ofCalls 1000⟩ 1 Session.globalScope
          ⟨storeOfCaller (.str "x"), "", ""⟩) ∧
      Isolated [Session.globalScope] ⟨storeOfCaller (.int 1), "", ""⟩
        ⟨storeOfCaller (.str "x"), "", ""⟩
        (Eval.invoke (Node.evalWithin ⟨Files.empty, true, .ofCalls 1000⟩ 1) [] (.var "x")
          Session.globalScope "f" [] ⟨storeOfCaller (.int 1), "", ""⟩)
        (Eval.invoke (Node.evalWithin ⟨Files.empty, true, .ofCalls 1000⟩ 1) [] (.var "x")
          Session.globalScope "f" [] ⟨storeOfCaller (.str "x"), "", ""⟩) := by
  have hagree := agreesFrom_storeOfCaller (.int 1) (.str "x")
  have hisolated := Node.isolated_evalWithin ⟨Files.empty, true, .ofCalls 1000⟩ 1
    ⟨storeOfCaller (.int 1), "", ""⟩ ⟨storeOfCaller (.str "x"), "", ""⟩
  exact ⟨hisolated.1 _ _ hagree, hisolated.2 ⟨[], .var "x", Session.globalScope, "f"⟩ [] hagree⟩

end Kestrel
