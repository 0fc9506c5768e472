import Kestrel.Proofs.Tracing.Notes

/-!
# Evaluation without its trace

Two computations are run side by side in worlds that differ in the trace alone. The second one does what
the first one does, except that it leaves the trace as it is. What is put together for the trace may
fail, so a run of the first one that ends with such a failure is left out.

* `Host.untraced` — the host with no trace kept;
* `Eval.Muted` — the second computation is the first one without its trace;
* `Notes.Muted` — the same for what is done at the points where something is noted;
* `Notes.muted_none`, `Notes.muted_kept` — notes that are not made, and notes for which no trace is kept;
* `Node.muted_evalNotingWithin` — evaluation with muted notes is muted evaluation;
* `Node.muted_evalWithin_of_le` — and so it is with room for more calls, unless there was too little.
-/

namespace Kestrel

/-- The host with no trace kept. -/
def Host.untraced (host : Host) : Host := { host with debug := false }

@[simp] theorem Host.files_untraced (host : Host) : host.untraced.files = host.files := rfl

theorem Host.calls_le_untraced (host : Host) : host.calls ≤ host.untraced.calls := by
  rw [Host.calls]
  split
  · exact host.stack.tracedCalls_le
  · exact Nat.le_refl _

/-- The world with another trace. -/
def World.withTrace (w : World) (trace : String) : World := { w with trace := trace }

@[simp] theorem World.withTrace_withTrace (w : World) (trace trace' : String) :
    (w.withTrace trace).withTrace trace' = w.withTrace trace' := rfl

@[simp] theorem World.withTrace_self (w : World) : w.withTrace w.trace = w := rfl

/-- The outcome of a run from `w`, and that of a run which leaves the trace `trace` as it is. -/
structure MutedRun {α : Type} (w : World) (trace : String) (r r' : Except Failure α × World) :
    Prop where
  /-- the second run ends as the first one does, in the same world but for the trace -/
  same : r' = (r.1, r.2.withTrace trace)
  /-- the first run only adds to the trace -/
  grows : ∃ text, r.2.trace = w.trace ++ text

namespace Eval

variable {α β : Type} {E : Failure → Prop}

/-- The second computation is the first one without its trace, as long as the first one does not end
with one of the failures. -/
def Muted (E : Failure → Prop) (m m' : Eval α) : Prop :=
  ∀ w trace, (∃ e, (m w).1 = .error e ∧ E e) ∨ MutedRun w trace (m w) (m' (w.withTrace trace))

namespace Muted

/-- If no failure is left out, every run is the same without its trace. -/
theorem run {m m' : Eval α} (h : Muted (fun _ => False) m m') (w : World) (trace : String) :
    MutedRun w trace (m w) (m' (w.withTrace trace)) :=
  (h w trace).resolve_left fun ⟨_, _, hfalse⟩ => hfalse

/-! ### Computations without a trace -/

/-- A computation that has nothing to do with the trace. -/
theorem of_same {m : Eval α}
    (h : ∀ w trace, m (w.withTrace trace) = ((m w).1, (m w).2.withTrace trace)) : Muted E m m := by
  intro w trace
  refine .inr ⟨h w trace, "", ?_⟩
  -- a run with the trace that is there already shows that it stays
  have hw := congrArg (·.2.trace) (h w w.trace)
  rw [String.append_empty]
  exact hw

theorem ofExcept (r : Except Failure α) : Muted E (ofExcept r) (ofExcept r) :=
  of_same fun _ _ => rfl

theorem pure (a : α) : Muted E (pure a) (pure a) := ofExcept (.ok a)

theorem fail (e : Failure) : Muted E (fail e : Eval α) (fail e) := ofExcept (.error e)

theorem read (f : Store → α) : Muted E (read f) (read f) := of_same fun _ _ => rfl

theorem lookup (scope : ScopeId) (name : String) :
    Muted E (lookup scope name) (lookup scope name) := by
  refine of_same fun w trace => ?_
  rw [Eval.lookup, Eval.lookup, World.withTrace]
  cases w.store.lookup? scope name <;> rfl

theorem define (scope : ScopeId) (name : String) (v : Value) :
    Muted E (define scope name v) (define scope name v) := of_same fun _ _ => rfl

theorem assign (scope : ScopeId) (name : String) (v : Value) :
    Muted E (assign scope name v) (assign scope name v) := of_same fun _ _ => rfl

theorem newScope (parent : ScopeId) (bs : Bindings) :
    Muted E (newScope parent bs) (newScope parent bs) := of_same fun _ _ => rfl

theorem write (text : String) : Muted E (write text) (write text) := of_same fun _ _ => rfl

theorem bind {m m' : Eval α} {f f' : α → Eval β} (hm : Muted E m m')
    (hf : ∀ a, Muted E (f a) (f' a)) : Muted E (m >>= f) (m' >>= f') := by
  intro w trace
  rw [bind_run, bind_run]
  obtain ⟨e, he, hE⟩ | ⟨hsame, text, hgrows⟩ := hm w trace
  · rcases hr : m w with ⟨_ | a, w'⟩ <;> rw [hr] at he <;> cases he
    exact .inl ⟨_, rfl, hE⟩
  · rw [hsame]
    rcases hr : m w with ⟨_ | a, w'⟩ <;> rw [hr] at hgrows
    · exact .inr ⟨rfl, text, hgrows⟩
    · obtain hfails | ⟨hsame', text', hgrows'⟩ := hf a w' trace
      · exact .inl hfails
      · exact .inr ⟨hsame', text ++ text', by rw [hgrows', hgrows, String.append_assoc]⟩

theorem condition (construct : String) (v : Value) :
    Muted E (condition construct v) (condition construct v) := by
  cases v with
  | bool b => exact pure b
  | _ => exact fail _

theorem textsOf (vs : List Value) : Muted E (textsOf vs) (textsOf vs) := by
  rw [Eval.textsOf]
  split
  · exact pure _
  · exact fail _

theorem contents {host host' : Host} (hfiles : host'.files = host.files) (v : Value) :
    Muted E (contents host v) (contents host' v) := by
  refine bind (ofExcept _) fun path => ?_
  rw [hfiles]
  split
  · exact fail _
  · exact fail _
  · exact pure _

theorem print (v : Value) : Muted E (print v) (print v) :=
  bind (ofExcept _) fun _ => bind (write _) fun _ => pure _

theorem forEach {body body' : Int → Eval Value} (hbody : ∀ i, Muted E (body i) (body' i))
    (count : Nat) (first : Int) (last : Value) :
    Muted E (forEach body count first last) (forEach body' count first last) := by
  induction count generalizing first last with
  | zero => exact pure last
  | succ count ih => exact bind (hbody first) fun v => ih (first + 1) v

theorem invoke {run run' : Runner} (hrun : ∀ scope n, Muted E (run scope n) (run' scope n))
    (params : List String) (body : Node) (home : ScopeId) (name : String) (args : List Value) :
    Muted E (invoke run params body home name args) (invoke run' params body home name args) := by
  rw [Eval.invoke, Eval.invoke]
  split
  · exact fail _
  · exact bind (newScope _ _) fun scope => hrun scope body

/-! ### Lines of the trace -/

/-- A line of the trace against nothing. -/
theorem traceLine_none (host : Host) (line : Store → String) :
    Muted E (traceLine host line) (Pure.pure ()) := by
  intro w trace
  rw [Eval.traceLine]
  split
  · exact .inr ⟨rfl, line w.store ++ "\n", String.append_assoc⟩
  · exact .inr ⟨rfl, "", String.append_empty.symm⟩

/-- A line of the trace against the same line where no trace is kept. -/
theorem traceLine_off (host : Host) (line : Store → String) :
    Muted E (traceLine host line) (traceLine host.untraced line) :=
  traceLine_none host line

theorem note_none (host : Host) (scope : ScopeId) (message : String) :
    Muted E (note host scope message) (Pure.pure ()) :=
  traceLine_none host _

theorem note_off (host : Host) (scope : ScopeId) (message : String) :
    Muted E (note host scope message) (note host.untraced scope message) :=
  traceLine_off host _

end Muted

end Eval

/-! ### Notes -/

/-- At every point the second notes do what the first ones do, without the trace. -/
structure Notes.Muted (E : Failure → Prop) (notes notes' : Notes) : Prop where
  /-- where a name was given a value -/
  assigned : ∀ scope name v, (notes.assigned scope name v).Muted E (notes'.assigned scope name v)
  /-- where a loop starts -/
  looped : ∀ scope name a b, (notes.looped scope name a b).Muted E (notes'.looped scope name a b)
  /-- where a statement comes next -/
  reached : ∀ scope n, (notes.reached scope n).Muted E (notes'.reached scope n)
  /-- where a function is about to be called -/
  called : ∀ scope name vs, (notes.called scope name vs).Muted E (notes'.called scope name vs)
  /-- where a placeholder has failed -/
  failed : ∀ scope inner e, (notes.failed scope inner e).Muted E (notes'.failed scope inner e)

/-- What evaluation notes against nothing at all. Only a value that has no text makes a difference. -/
theorem Notes.muted_none (host : Host) :
    (Notes.kept host).Muted (· = .fault .tooManyDigits) Notes.none where
  assigned scope name v := by
    rw [Notes.kept_assigned, Value.textOf]
    cases v.text? with
    | some text => exact .note_none host scope _
    | none => exact fun w _ => .inl ⟨_, rfl, rfl⟩
  looped scope name a b := by
    rw [Notes.kept_looped, Eval.textsOf]
    cases Value.texts? [.int a, .int b] with
    | some texts => exact .note_none host scope _
    | none => exact fun w _ => .inl ⟨_, rfl, rfl⟩
  reached scope n := .note_none host scope n.label
  called scope name vs := by
    rw [Notes.kept_called, Eval.textsOf]
    cases Value.texts? vs with
    | some texts => exact .note_none host scope _
    | none => exact fun w _ => .inl ⟨_, rfl, rfl⟩
  failed scope inner e := .note_none host scope _

/-- What evaluation notes, with a trace and without one. The texts are put together in both cases. -/
theorem Notes.muted_kept (E : Failure → Prop) (host : Host) :
    (Notes.kept host).Muted E (Notes.kept host.untraced) where
  assigned scope name v := by
    rw [Notes.kept_assigned, Notes.kept_assigned]
    exact .bind (.ofExcept _) fun text => .note_off host scope _
  looped scope name a b := by
    rw [Notes.kept_looped, Notes.kept_looped]
    exact .bind (.textsOf _) fun bounds => .note_off host scope _
  reached scope n := .note_off host scope n.label
  called scope name vs := by
    rw [Notes.kept_called, Notes.kept_called]
    exact .bind (.textsOf _) fun texts => .note_off host scope _
  failed scope inner e := .note_off host scope _

/-! ### Evaluation -/

namespace Eval

variable {E : Failure → Prop} {notes notes' : Notes} (hnotes : notes.Muted E notes') (scope : ScopeId)

include hnotes

theorem Muted.segment (s : Template.Segment) :
    Muted E (segmentNoting notes scope s) (segmentNoting notes' scope s) := by
  cases s with
  | text chars => exact .pure _
  | placeholder inner =>
    refine .bind (.read _) fun r => ?_
    rcases r with ⟨e | e⟩ | text
    · exact .bind (hnotes.failed scope inner e) fun _ => .pure _
    · exact .fail _
    · exact .pure text

theorem Muted.segments (ss : List Template.Segment) :
    Muted E (segmentsNoting notes scope ss) (segmentsNoting notes' scope ss) := by
  induction ss with
  | nil => exact .pure ""
  | cons s ss ih => exact .bind (.segment hnotes scope s) fun _ => .bind ih fun _ => .pure _

theorem Muted.template (text : String) :
    Muted E (templateNoting notes scope text) (templateNoting notes' scope text) :=
  .bind (.segments hnotes scope _) fun _ => .pure _

end Eval

section

variable {E : Failure → Prop} {notes notes' : Notes} {host host' : Host} {run run' : Runner}

mutual

/-- With muted notes the evaluation of a node is muted. -/
theorem Node.muted_evalNoting (hnotes : notes.Muted E notes') (hfiles : host'.files = host.files)
    (hrun : ∀ scope n, (run scope n).Muted E (run' scope n)) (scope : ScopeId) : (n : Node) →
    (n.evalNoting notes host run scope).Muted E (n.evalNoting notes' host' run' scope)
  | .int _ | .str _ | .bool _ | .none => .pure _
  | .template text => .template hnotes scope text
  | .var name => .lookup scope name
  | .assign name e =>
    .bind (e.muted_evalNoting hnotes hfiles hrun scope) fun v =>
      .bind (.assign scope name v) fun _ => .bind (hnotes.assigned scope name v) fun _ => .pure v
  | .unary _ e => .bind (e.muted_evalNoting hnotes hfiles hrun scope) fun _ => .ofExcept _
  | .print e => .bind (e.muted_evalNoting hnotes hfiles hrun scope) fun v => .print v
  | .read e => .bind (e.muted_evalNoting hnotes hfiles hrun scope) fun v => .contents hfiles v
  | .binary _ l r | .split l r =>
    .bind (l.muted_evalNoting hnotes hfiles hrun scope) fun _ =>
      .bind (r.muted_evalNoting hnotes hfiles hrun scope) fun _ => .ofExcept _
  | .choice c t f | .ifElse c t f => by
    refine .bind (c.muted_evalNoting hnotes hfiles hrun scope) fun v => ?_
    refine .bind (.condition _ v) fun b => ?_
    split
    · exact t.muted_evalNoting hnotes hfiles hrun scope
    · exact f.muted_evalNoting hnotes hfiles hrun scope
  | .forLoop name first last body => by
    refine .bind (first.muted_evalNoting hnotes hfiles hrun scope) fun v => ?_
    split
    · refine .bind (last.muted_evalNoting hnotes hfiles hrun scope) fun v => ?_
      split
      · refine .bind (hnotes.looped scope name _ _) fun _ => .forEach (fun i => ?_) _ _ _
        refine .bind (.assign scope name (.int i)) fun _ => ?_
        exact body.muted_evalNoting hnotes hfiles hrun scope
      · exact .pure _
    · exact .pure _
  | .block ns => Node.muted_evalBlockNoting hnotes hfiles hrun scope ns .none
  | .declare name params body => .bind (.define scope name _) fun _ => .pure _
  | .call name args => by
    refine .bind (.lookup scope name) fun v => ?_
    split
    · refine .bind (Node.muted_evalArgsNoting hnotes hfiles hrun scope args) fun vs => ?_
      exact .bind (hnotes.called scope name vs) fun _ => .invoke hrun _ _ _ _ vs
    · exact .fail _

/-- The same for several statements. -/
theorem Node.muted_evalBlockNoting (hnotes : notes.Muted E notes')
    (hfiles : host'.files = host.files) (hrun : ∀ scope n, (run scope n).Muted E (run' scope n))
    (scope : ScopeId) : (ns : List Node) → (last : Value) →
    (Node.evalBlockNoting notes host run scope ns last).Muted E
      (Node.evalBlockNoting notes' host' run' scope ns last)
  | [], last => .pure last
  | n :: ns, _ =>
    .bind (hnotes.reached scope n) fun _ =>
      .bind (n.muted_evalNoting hnotes hfiles hrun scope) fun v =>
        Node.muted_evalBlockNoting hnotes hfiles hrun scope ns v

/-- The same for several arguments. -/
theorem Node.muted_evalArgsNoting (hnotes : notes.Muted E notes')
    (hfiles : host'.files = host.files) (hrun : ∀ scope n, (run scope n).Muted E (run' scope n))
    (scope : ScopeId) : (ns : List Node) →
    (Node.evalArgsNoting notes host run scope ns).Muted E
      (Node.evalArgsNoting notes' host' run' scope ns)
  | [] => .pure []
  | n :: ns =>
    .bind (n.muted_evalNoting hnotes hfiles hrun scope) fun _ =>
      .bind (Node.muted_evalArgsNoting hnotes hfiles hrun scope ns) fun _ => .pure _

end

end

/-- With muted notes evaluation is muted, however deep calls may lie inside each other. -/
theorem Node.muted_evalNotingWithin {E : Failure → Prop} {notes notes' : Notes} {host host' : Host}
    (hnotes : notes.Muted E notes') (hfiles : host'.files = host.files) (calls : Nat)
    (scope : ScopeId) (n : Node) :
    (n.evalNotingWithin notes host calls scope).Muted E
      (n.evalNotingWithin notes' host' calls scope) := by
  induction calls generalizing scope n with
  | zero => exact n.muted_evalNoting hnotes hfiles (fun _ _ => .fail _) scope
  | succ calls ih => exact n.muted_evalNoting hnotes hfiles ih scope

/-- Evaluation with a trace and without one. -/
theorem Node.muted_evalWithin (E : Failure → Prop) (host : Host) (calls : Nat) (scope : ScopeId)
    (n : Node) :
    (n.evalWithin host calls scope).Muted E (n.evalWithin host.untraced calls scope) := by
  rw [← Node.evalNotingWithin_kept host, ← Node.evalNotingWithin_kept host.untraced]
  exact n.muted_evalNotingWithin (Notes.muted_kept E host) host.files_untraced calls scope

/-! ### Room for calls -/

/-- Evaluation with a trace, and without one where more calls may lie inside each other. Only where the
first one has no more room does it matter how much more the second one has. -/
theorem Node.muted_evalWithin_of_le {calls calls' : Nat} (h : calls ≤ calls') (host : Host)
    (scope : ScopeId) (n : Node) :
    (n.evalWithin host calls scope).Muted (· = .fault .stackFull)
      (n.evalWithin host.untraced calls' scope) := by
  have hnotes := Notes.muted_kept (· = .fault .stackFull) host
  rw [← Node.evalNotingWithin_kept host, ← Node.evalNotingWithin_kept host.untraced]
  induction calls generalizing calls' scope n with
  | zero =>
    -- here the first evaluation makes no calls at all
    have hfull (run : Runner) (scope : ScopeId) (n : Node) :
        (Eval.fail (.fault .stackFull)).Muted (· = .fault .stackFull) (run scope n) :=
      fun _ _ => .inl ⟨_, rfl, rfl⟩
    cases calls' with
    | zero | succ => exact n.muted_evalNoting hnotes host.files_untraced (hfull _) scope
  | succ calls ih =>
    cases calls' with
    | zero => exact absurd h (Nat.not_succ_le_zero calls)
    | succ calls' =>
      exact n.muted_evalNoting hnotes host.files_untraced (ih (Nat.le_of_succ_le_succ h)) scope

/-- A whole program with a trace and without one. The trace takes room that calls might need. -/
theorem muted_evalProgram (host : Host) (scope : ScopeId) (statements : List Node) :
    (evalProgram host scope statements).Muted (· = .fault .stackFull)
      (evalProgram host.untraced scope statements) :=
  .bind (.traceLine_off host _) fun _ =>
    Node.muted_evalWithin_of_le host.calls_le_untraced host scope (.block statements)

end Kestrel
