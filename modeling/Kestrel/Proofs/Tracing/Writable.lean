import Kestrel.Proofs.Scopes.Keeps

/-!
# What is bound after an evaluation has a text

Where a name is given a value, a loop starts or a function is called, a text is put together for the
trace, and an evaluation that cannot do so fails. So an evaluation that does not fail for this reason,
whether it fails for another one or not, has put only values that have a text into the scopes. Values
that are nowhere bound need not have one.

* `Store.Writable` — every value bound anywhere has a text;
* `Eval.Writes` — a computation that keeps the scopes so, unless it fails for want of a text;
* `Node.writes_evalWithin` — evaluation is such a computation.
-/

namespace Kestrel

/-- The value has a text: no integer in it has too many digits. -/
def Value.Writable (v : Value) : Prop := v.text?.isSome

/-- Every value has a text. -/
def Bindings.Writable (bs : Bindings) : Prop := ∀ entry ∈ bs, entry.2.Writable

/-- Every value that some scope binds has a text. -/
def Store.Writable (s : Store) : Prop := ∀ i, (s.bindings i).Writable

/-! ### Values -/

/-- The integer has at most `digitLimit` digits. -/
def Text.WithinLimit (n : Int) : Prop := n.natAbs < Nat.pow 10 digitLimit

instance (n : Int) : Decidable (Text.WithinLimit n) :=
  inferInstanceAs (Decidable (n.natAbs < Nat.pow 10 Text.digitLimit))

theorem Value.writable_int_iff {n : Int} : (Value.int n).Writable ↔ Text.WithinLimit n := by
  rw [Writable, text?, Text.numeral?, Text.WithinLimit]
  split
  case isTrue h => exact ⟨fun _ => h, fun _ => rfl⟩
  case isFalse h => exact ⟨fun hsome => absurd hsome Bool.false_ne_true, fun hlt => absurd hlt h⟩

/-- An integer between two integers that have a text has one too. -/
theorem Value.writable_of_between {a b i : Int} (ha : (Value.int a).Writable)
    (hb : (Value.int b).Writable) (hai : a ≤ i) (hib : i ≤ b) : (Value.int i).Writable := by
  rw [writable_int_iff, Text.WithinLimit] at *
  omega

theorem Value.writable_of_texts? {vs : List Value} {texts : List String}
    (h : Value.texts? vs = some texts) : ∀ v ∈ vs, v.Writable := by
  induction vs generalizing texts with
  | nil => nofun
  | cons v vs ih =>
    rw [Value.texts?] at h
    split at h
    case h_1 _ _ hv hvs =>
      exact List.forall_mem_cons.mpr ⟨Option.isSome_of_mem hv, ih hvs⟩
    case h_2 => cases h

/-! ### Scopes -/

theorem Bindings.Writable.insert {bs : Bindings} (h : bs.Writable) (name : String) {v : Value}
    (hv : v.Writable) : (bs.insert name v).Writable := by
  induction bs with
  | nil => exact List.forall_mem_singleton.mpr hv
  | cons b bs ih =>
    obtain ⟨hb, hbs⟩ := List.forall_mem_cons.mp h
    rw [Bindings.insert]
    split
    · exact List.forall_mem_cons.mpr ⟨hv, hbs⟩
    · exact List.forall_mem_cons.mpr ⟨hb, ih hbs⟩

theorem Bindings.writable_ofList {entries : List (String × Value)}
    (h : ∀ entry ∈ entries, entry.2.Writable) : (Bindings.ofList entries).Writable := by
  have from_some (bs : Bindings) (hbs : bs.Writable) :
      (entries.foldl (fun bs entry => Bindings.insert entry.1 entry.2 bs) bs).Writable := by
    induction entries generalizing bs with
    | nil => exact hbs
    | cons entry entries ih =>
      obtain ⟨hentry, hentries⟩ := List.forall_mem_cons.mp h
      exact ih hentries _ (hbs.insert entry.1 hentry)
  exact from_some [] nofun

namespace Store.Writable

variable {s : Store} (h : s.Writable)

include h

theorem define (i : ScopeId) (name : String) {v : Value} (hv : v.Writable) :
    (s.define i name v).Writable := by
  intro j
  rw [bindings_define]
  split
  · exact (h i).insert name hv
  · exact h j

theorem assign (i : ScopeId) (name : String) {v : Value} (hv : v.Writable) :
    (s.assign i name v).Writable :=
  h.define _ name hv

theorem push (parent : Option ScopeId) {bs : Bindings} (hbs : bs.Writable) :
    (s.push parent bs).Writable := by
  intro j
  rw [bindings_push]
  split
  · exact hbs
  · exact h j

end Store.Writable

/-! ### Computations -/

namespace Eval

variable {α β : Type}

/-- The computation keeps every value that is bound one that has a text, unless it fails for want of a
text. -/
def Writes (m : Eval α) : Prop :=
  ∀ w, w.store.Writable → (m w).1 ≠ .error (.fault .tooManyDigits) → (m w).2.store.Writable

namespace Writes

theorem of_quiet {m : Eval α} {P : α → Prop} (h : m.Quiet P) : m.Writes := by
  intro w hw _
  rw [(h w).1]
  exact hw

theorem of_apart {m : Eval α} {P : α → Prop} (h : m.Apart P) : m.Writes :=
  of_quiet (.of_apart h)

theorem pure (a : α) : Writes (pure a) := of_apart (P := fun _ => True) (.pure True.intro)

theorem fail (e : Failure) : Writes (fail e : Eval α) := fun _ hw _ => hw

theorem ofExcept (r : Except Failure α) : (ofExcept r).Writes := fun _ hw _ => hw

theorem bind {m : Eval α} {f : α → Eval β} (hm : m.Writes) (hf : ∀ a, (f a).Writes) :
    (m >>= f).Writes := by
  intro w hw hne
  have hfirst := hm w hw
  rw [bind_run] at hne ⊢
  rcases hr : m w with ⟨e | a, w'⟩ <;> rw [hr] at hne hfirst
  · exact hfirst fun he => hne (congrArg _ (Except.error.inj he))
  · exact hf a w' (hfirst nofun) hne

theorem lookup (scope : ScopeId) (name : String) : (lookup scope name).Writes := by
  intro w hw _
  rw [Eval.lookup]
  split <;> exact hw

theorem define (scope : ScopeId) (name : String) {v : Value} (hv : v.Writable) :
    (define scope name v).Writes := fun _ hw _ => hw.define scope name hv

theorem assign (scope : ScopeId) (name : String) {v : Value} (hv : v.Writable) :
    (assign scope name v).Writes := fun _ hw _ => hw.assign scope name hv

theorem newScope (parent : ScopeId) {bs : Bindings} (hbs : bs.Writable) :
    (newScope parent bs).Writes := fun _ hw _ => hw.push _ hbs

/-- A value without a text may be bound if the computation fails for it afterwards. -/
theorem assign_textOf (scope : ScopeId) (name : String) (v : Value) {k : String → Eval α}
    (hk : ∀ text, (k text).Writes) :
    (do Eval.assign scope name v; let text ← Eval.ofExcept v.textOf; k text).Writes := by
  rw [Value.textOf]
  cases hv : v.text? with
  | some text => exact bind (assign scope name (Option.isSome_of_mem hv)) fun _ => hk text
  | none => exact fun w _ hne => absurd rfl hne

/-- After the texts of values have been put together, the values are known to have one. -/
theorem bind_textsOf {vs : List Value} {k : List String → Eval α}
    (hk : ∀ texts, (∀ v ∈ vs, v.Writable) → (k texts).Writes) : (textsOf vs >>= k).Writes := by
  rw [textsOf]
  cases hvs : Value.texts? vs with
  | some texts => exact hk texts (Value.writable_of_texts? hvs)
  | none => exact fun w _ hne => absurd rfl hne

/-- The body of a loop is told that its integer lies between the bounds. -/
theorem forEach {body : Int → Eval Value} (count : Nat) (first : Int) (last : Value)
    (hbody : ∀ i, first ≤ i → i < first + count → (body i).Writes) :
    (forEach body count first last).Writes := by
  induction count generalizing first last with
  | zero => exact pure last
  | succ count ih =>
    refine bind (hbody first (by omega) (by omega)) fun v => ih (first + 1) v fun i hi hlt => ?_
    exact hbody i (by omega) (by omega)

theorem invoke {run : Runner} (hrun : ∀ scope n, (run scope n).Writes) (params : List String)
    (body : Node) (home : ScopeId) (name : String) {args : List Value}
    (hargs : ∀ v ∈ args, v.Writable) : (invoke run params body home name args).Writes := by
  rw [Eval.invoke]
  split
  · exact fail _
  · refine bind (newScope home (Bindings.writable_ofList fun entry hentry => ?_)) fun scope =>
      hrun scope body
    exact hargs _ (List.of_mem_zip hentry).2

end Writes

end Eval

/-! ### Evaluation -/

section

variable {run : Runner} (host : Host) (scope : ScopeId)

mutual

/-- Evaluation of a node that does not fail for want of a text binds only values that have one. -/
theorem Node.writes_evalWith (hrun : ∀ scope n, (run scope n).Writes) :
    (n : Node) → (n.evalWith host run scope).Writes
  | .int _ | .str _ | .bool _ | .none => .pure _
  | .template text => .of_quiet (.template host scope text)
  | .var name => .lookup scope name
  | .assign name e =>
    .bind (e.writes_evalWith hrun) fun v => .assign_textOf scope name v fun _ =>
      .bind (.of_quiet (.note host scope _)) fun _ => .pure v
  | .unary _ e => .bind (e.writes_evalWith hrun) fun _ => .ofExcept _
  | .print e => .bind (e.writes_evalWith hrun) fun v => .of_apart (.print v)
  | .read e => .bind (e.writes_evalWith hrun) fun v => .of_apart (.contents host v)
  | .binary _ l r | .split l r =>
    .bind (l.writes_evalWith hrun) fun _ => .bind (r.writes_evalWith hrun) fun _ => .ofExcept _
  | .choice c t f | .ifElse c t f => by
    refine .bind (c.writes_evalWith hrun) fun v => .bind (.of_apart (.condition _ v)) fun b => ?_
    split
    · exact t.writes_evalWith hrun
    · exact f.writes_evalWith hrun
  | .forLoop name first last body => by
    refine .bind (first.writes_evalWith hrun) fun v => ?_
    split
    case h_1 a =>
      refine .bind (last.writes_evalWith hrun) fun v => ?_
      split
      case h_1 b =>
        refine .bind_textsOf fun _ hbounds => .bind (.of_quiet (.note host scope _)) fun _ => ?_
        have ha : (Value.int a).Writable := hbounds _ List.mem_cons_self
        have hb : (Value.int b).Writable := hbounds _ (List.mem_cons_of_mem _ List.mem_cons_self)
        refine .forEach _ _ _ fun i hi hlt => ?_
        have hi' : (Value.int i).Writable := Value.writable_of_between ha hb hi (by omega)
        exact .bind (.assign scope name hi') fun _ => body.writes_evalWith hrun
      case h_2 => exact .pure _
    case h_2 => exact .pure _
  | .block ns => Node.writes_evalBlock hrun ns .none
  | .declare name params body => .bind (.define scope name rfl) fun _ => .pure _
  | .call name args => by
    refine .bind (.lookup scope name) fun v => ?_
    split
    · refine .bind (Node.writes_evalArgs hrun args) fun vs => .bind_textsOf fun _ hvs => ?_
      exact .bind (.of_quiet (.note host scope _)) fun _ => .invoke hrun _ _ _ _ hvs
    · exact .fail _

/-- The same for several statements. -/
theorem Node.writes_evalBlock (hrun : ∀ scope n, (run scope n).Writes) :
    (ns : List Node) → (last : Value) →
    (Node.evalBlock host run scope ns last).Writes
  | [], last => .pure last
  | n :: ns, _ =>
    .bind (.of_quiet (.note host scope _)) fun _ => .bind (n.writes_evalWith hrun) fun v =>
      Node.writes_evalBlock hrun ns v

/-- The same for several arguments. -/
theorem Node.writes_evalArgs (hrun : ∀ scope n, (run scope n).Writes) :
    (ns : List Node) → (Node.evalArgs host run scope ns).Writes
  | [] => .pure []
  | n :: ns =>
    .bind (n.writes_evalWith hrun) fun _ => .bind (Node.writes_evalArgs hrun ns) fun _ => .pure _

end

end

/-- Evaluation that does not fail for want of a text binds only values that have one, however deep calls
may lie inside each other. -/
theorem Node.writes_evalWithin (host : Host) (calls : Nat) (scope : ScopeId) (n : Node) :
    (n.evalWithin host calls scope).Writes := by
  induction calls generalizing scope n with
  | zero => exact n.writes_evalWith host scope fun _ _ => .fail _
  | succ calls ih => exact n.writes_evalWith host scope ih

end Kestrel
