import Kestrel.Eval.Node

/-!
# What an evaluation can fail with

An evaluation that does not end with a value ends with a failure of the program, or with one of a few
failures of its host: a numeral would have too many digits, a text would be repeated too often, a path
holds a null character, the stack has no room for more calls, or the host still owes the answer for a
path. No other failure of the host is met: neither the bound on reading nor a script that could not be
opened, for texts are read and scripts are opened before anything is evaluated.

* `Fault.Arises` — the failures of the host that an evaluation can end with;
* `Eval.Raises` — a computation that fails in no other way;
* `Node.raises_evalWithin` — evaluation is such a computation;
* `Node.outcome_evalWithin` — how an evaluation can end;
* `Node.evalWithin_fault` — failures of the host where a file is read and where a text is repeated.
-/

namespace Kestrel

/-- The failures of a host with these files that an evaluation can end with. -/
inductive Fault.Arises (files : Files) : Fault → Prop where
  /-- an integer that is to be written, or is written in a placeholder, is too long -/
  | tooManyDigits : Arises files .tooManyDigits
  /-- a text is to be repeated too often -/
  | repeatOverflow : Arises files .repeatOverflow
  /-- a path holds a null character -/
  | nulInPath : Arises files .nulInPath
  /-- there is no room for more calls inside each other -/
  | stackFull : Arises files .stackFull
  /-- the host owes an answer -/
  | notSupplied {path : String} (h : files path = .notYet) : Arises files (.notSupplied path)

/-- The failures that an evaluation can end with. -/
inductive Failure.Arises (files : Files) : Failure → Prop where
  /-- any failure of the program -/
  | runtime (error : RuntimeError) : Arises files (.runtime error)
  /-- some failures of the host -/
  | fault {fault : Fault} (h : fault.Arises files) : Arises files (.fault fault)

variable {α β : Type} {files : Files}

/-! ### Operations -/

/-- If the result is a failure, it is one that an evaluation can end with. -/
def Failure.Only (files : Files) (r : Except Failure α) : Prop :=
  ∀ e, r = .error e → e.Arises files

namespace Failure.Only

theorem ok (a : α) : Only files (.ok a : Except Failure α) := nofun

theorem error {e : Failure} (h : e.Arises files) : Only files (.error e : Except Failure α) := by
  rintro _ ⟨⟩
  exact h

theorem runtime (e : RuntimeError) : Only files (.error (.runtime e) : Except Failure α) :=
  error (.runtime e)

theorem map {r : Except Failure α} (h : Only files r) (f : α → β) : Only files (r.map f) := by
  cases r with
  | ok a => exact ok (f a)
  | error e => exact error (h e rfl)

theorem textOf (v : Value) : Only files v.textOf := by
  rw [Value.textOf]
  split
  · exact ok _
  · exact error (.fault .tooManyDigits)

theorem expectInt (operation : String) (v : Value) : Only files (v.expectInt operation) := by
  cases v with
  | int n => exact ok n
  | _ => exact runtime _

theorem expectBool (operation : String) (v : Value) : Only files (v.expectBool operation) := by
  cases v with
  | bool b => exact ok b
  | _ => exact runtime _

theorem expectStr (operation : String) (v : Value) : Only files (v.expectStr operation) := by
  cases v with
  | str s => exact ok s
  | _ => exact runtime _

theorem joinTexts (x y : Value) : Only files (Value.joinTexts x y) := by
  rw [Value.joinTexts]
  split
  next => exact ok _
  next he => exact error (textOf x _ he)
  next he _ => exact error (textOf y _ he)

theorem repeatText (s : String) (count : Int) : Only files (Value.repeatText s count) := by
  rw [Value.repeatText]
  split
  · exact error (.fault .repeatOverflow)
  · split <;> exact ok _

theorem split (x y : Value) : Only files (Value.split x y) := by
  rw [Value.split.eq_def]
  split
  · exact ok _
  · exact runtime _

theorem binaryOp (op : BinaryOp) (x y : Value) : Only files (op.apply x y) := by
  rw [BinaryOp.apply.eq_def]
  split
  case h_2 | h_3 | h_4 => exact joinTexts _ _
  case h_7 | h_8 => exact repeatText _ _
  case h_9 =>
    split
    · exact ok _
    · exact runtime _
  case h_16 => exact runtime _
  all_goals exact ok _

theorem unaryOp (op : UnaryOp) (v : Value) : Only files (op.apply v) := by
  cases op with
  | neg => exact (expectInt _ v).map _
  | not => exact (expectBool _ v).map _

theorem readOperand (bound : String → Bool) (cs : List Char) :
    Only files (Template.Formula.readOperand bound cs) := by
  rw [Template.Formula.readOperand]
  split
  · split
    · exact ok _
    · exact error (.fault .tooManyDigits)
  · split
    · exact ok _
    · exact runtime _

theorem readDense (bound : String → Bool) (cs : List Char) :
    Only files (Template.Formula.readDense bound cs) := by
  fun_induction Template.Formula.readDense bound cs with
  | case1 cs before op after _ e he ih => exact error (ih e he)
  | case2 cs before op after _ left _ _ => exact (readOperand bound after).map _
  | case3 cs _ => exact readOperand bound cs

theorem formula (s : Store) (scope : ScopeId) (f : Template.Formula) :
    Only files (f.eval s scope) := by
  induction f with
  | int value => exact ok _
  | var name =>
    rw [Template.Formula.eval]
    split
    · exact ok _
    · exact runtime _
  | binary op left right ihl ihr =>
    rw [Template.Formula.eval]
    split
    next e he => exact error (ihl e he)
    next x _ =>
      split
      next e he => exact error (ihr e he)
      next y _ => exact binaryOp op x y

theorem placeholderText (s : Store) (scope : ScopeId) (inner : List Char) :
    Only files (Template.placeholderText s scope inner) := by
  rw [Template.placeholderText]
  split
  next e he => exact error (readDense _ _ e he)
  next f _ =>
    split
    next e he => exact error (formula s scope f e he)
    next v _ => exact textOf v

theorem readText (path : String) {fault : Fault} (h : files.readText path = .error fault) :
    fault.Arises files := by
  rw [Files.readText] at h
  split at h
  · cases h
    exact .nulInPath
  · split at h
    next hpath =>
      cases h
      exact .notSupplied hpath
    next => cases h
    next => split at h <;> cases h

end Failure.Only

/-! ### Computations -/

namespace Eval

/-- The computation fails in no other way than an evaluation. -/
def Raises (files : Files) (m : Eval α) : Prop := ∀ w, Failure.Only files (m w).1

namespace Raises

theorem pure (a : α) : Raises files (pure a : Eval α) := fun _ => .ok a

theorem bind {m : Eval α} {f : α → Eval β} (hm : m.Raises files) (hf : ∀ a, (f a).Raises files) :
    (m >>= f).Raises files := by
  intro w
  have hfirst := hm w
  rw [bind_run]
  rcases hr : m w with ⟨e | a, w'⟩
  · rw [hr] at hfirst
    exact .error (hfirst e rfl)
  · exact hf a w'

theorem ofExcept {r : Except Failure α} (h : Failure.Only files r) : (ofExcept r).Raises files :=
  fun _ => h

theorem fail {e : Failure} (h : e.Arises files) : (fail e : Eval α).Raises files :=
  fun _ => .error h

theorem modify (f : Store → Store) : (modify f).Raises files := fun _ => .ok _

theorem newScope (parent : ScopeId) (bindings : Bindings) : (newScope parent bindings).Raises files :=
  fun _ => .ok _

theorem write (text : String) : (write text).Raises files := fun _ => .ok _

theorem lookup (scope : ScopeId) (name : String) : (lookup scope name).Raises files := by
  intro w
  rw [Eval.lookup]
  split
  · exact .ok _
  · exact .runtime _

theorem traceLine (host : Host) (line : Store → String) : (traceLine host line).Raises files := by
  intro w
  rw [Eval.traceLine]
  split <;> exact .ok _

theorem note (host : Host) (scope : ScopeId) (message : String) :
    (note host scope message).Raises files :=
  traceLine host _

theorem condition (construct : String) (v : Value) : (condition construct v).Raises files := by
  cases v with
  | bool b => exact pure b
  | _ => exact fail (.runtime _)

theorem textsOf (vs : List Value) : (textsOf vs).Raises files := by
  rw [Eval.textsOf]
  split
  · exact pure _
  · exact fail (.fault .tooManyDigits)

theorem print (v : Value) : (print v).Raises files :=
  bind (ofExcept (.textOf v)) fun _ => bind (write _) fun _ => pure _

theorem contents (host : Host) (path : Value) : (contents host path).Raises host.files := by
  refine bind (ofExcept (.expectStr _ path)) fun path => ?_
  split
  next he => exact fail (.fault (Failure.Only.readText path he))
  next => exact fail (.runtime _)
  next => exact pure _

theorem segment (host : Host) (scope : ScopeId) (s : Template.Segment) :
    (segment host scope s).Raises files := by
  cases s with
  | text chars => exact pure _
  | placeholder inner =>
    intro w
    have htext : Failure.Only files (Template.placeholderText w.store scope inner) :=
      .placeholderText _ _ _
    rw [Eval.segment, bind_run, Eval.read]
    generalize Template.placeholderText w.store scope inner = r at htext
    rcases r with ⟨e | fault⟩ | text
    · exact bind (note host scope _) (fun _ => pure _) w
    · exact .error (htext _ rfl)
    · exact .ok text

theorem segments (host : Host) (scope : ScopeId) (ss : List Template.Segment) :
    (segments host scope ss).Raises files := by
  induction ss with
  | nil => exact pure _
  | cons s ss ih => exact bind (segment host scope s) fun _ => bind ih fun _ => pure _

theorem template (host : Host) (scope : ScopeId) (text : String) :
    (template host scope text).Raises files :=
  bind (segments host scope _) fun _ => pure _

theorem forEach {body : Int → Eval Value} (hbody : ∀ i, (body i).Raises files) (count : Nat)
    (first : Int) (last : Value) : (forEach body count first last).Raises files := by
  induction count generalizing first last with
  | zero => exact pure last
  | succ count ih => exact bind (hbody first) fun v => ih (first + 1) v

theorem invoke {run : Runner} (hrun : ∀ scope n, (run scope n).Raises files) (params : List String)
    (body : Node) (home : ScopeId) (name : String) (args : List Value) :
    (invoke run params body home name args).Raises files := by
  rw [Eval.invoke]
  split
  · exact fail (.runtime _)
  · exact bind (newScope home _) fun scope => hrun scope body

end Raises

end Eval

/-! ### Evaluation -/

section

variable {host : Host} {run : Runner} (scope : ScopeId)

mutual

/-- If the bodies of called functions fail in no other way, no node does. -/
theorem Node.raises_evalWith (hrun : ∀ scope n, (run scope n).Raises host.files) :
    (n : Node) → (n.evalWith host run scope).Raises host.files
  | .int _ | .str _ | .bool _ | .none => .pure _
  | .template text => .template host scope text
  | .var name => .lookup scope name
  | .assign _ e =>
    .bind (e.raises_evalWith hrun) fun v => .bind (.modify _) fun _ =>
      .bind (.ofExcept (.textOf v)) fun _ => .bind (.note host scope _) fun _ => .pure v
  | .binary op l r =>
    .bind (l.raises_evalWith hrun) fun x => .bind (r.raises_evalWith hrun) fun y =>
      .ofExcept (.binaryOp op x y)
  | .unary op e => .bind (e.raises_evalWith hrun) fun v => .ofExcept (.unaryOp op v)
  | .choice c t f | .ifElse c t f =>
    .bind (c.raises_evalWith hrun) fun v => .bind (.condition _ v) fun b => by
      cases b with
      | true => exact t.raises_evalWith hrun
      | false => exact f.raises_evalWith hrun
  | .forLoop name first last body =>
    .bind (first.raises_evalWith hrun) fun v => by
      cases v with
      | int a =>
        refine .bind (last.raises_evalWith hrun) fun v => ?_
        cases v with
        | int b =>
          refine .bind (.textsOf _) fun _ => .bind (.note host scope _) fun _ => ?_
          exact .forEach (fun i => .bind (.modify _) fun _ => body.raises_evalWith hrun) _ a .none
        | _ => exact .pure _
      | _ => exact .pure _
  | .block ns => Node.raises_evalBlock hrun ns .none
  | .declare _ _ _ => .bind (.modify _) fun _ => .pure _
  | .call name args =>
    .bind (.lookup scope name) fun v => by
      cases v with
      | function params body home fname =>
        exact .bind (Node.raises_evalArgs hrun args) fun vs => .bind (.textsOf vs) fun _ =>
          .bind (.note host scope _) fun _ => .invoke hrun params body home fname vs
      | _ => exact .fail (.runtime _)
  | .print e => .bind (e.raises_evalWith hrun) fun v => .print v
  | .read e => .bind (e.raises_evalWith hrun) fun v => .contents host v
  | .split s d =>
    .bind (s.raises_evalWith hrun) fun x => .bind (d.raises_evalWith hrun) fun y =>
      .ofExcept (.split x y)

/-- The same for several statements. -/
theorem Node.raises_evalBlock (hrun : ∀ scope n, (run scope n).Raises host.files) :
    (ns : List Node) → (last : Value) →
    (Node.evalBlock host run scope ns last).Raises host.files
  | [], last => .pure last
  | n :: ns, _ =>
    .bind (.note host scope _) fun _ => .bind (n.raises_evalWith hrun) fun v =>
      Node.raises_evalBlock hrun ns v

/-- The same for several arguments. -/
theorem Node.raises_evalArgs (hrun : ∀ scope n, (run scope n).Raises host.files) :
    (ns : List Node) →
    (Node.evalArgs host run scope ns).Raises host.files
  | [] => .pure _
  | n :: ns =>
    .bind (n.raises_evalWith hrun) fun _ => .bind (Node.raises_evalArgs hrun ns) fun _ => .pure _

end

end

/-- Evaluation fails in no other way, however many calls may lie inside each other. -/
theorem Node.raises_evalWithin (host : Host) (calls : Nat) (scope : ScopeId) (n : Node) :
    (n.evalWithin host calls scope).Raises host.files := by
  induction calls generalizing scope n with
  | zero => exact n.raises_evalWith scope fun _ _ => .fail (.fault .stackFull)
  | succ calls ih => exact n.raises_evalWith scope ih

/-- An evaluation ends with a value, with a failure of the program, or with one of a few failures of the
host. -/
theorem Node.outcome_evalWithin (host : Host) (calls : Nat) (scope : ScopeId) (n : Node) (w : World) :
    (∃ v, (n.evalWithin host calls scope w).1 = .ok v) ∨
      (∃ e, (n.evalWithin host calls scope w).1 = .error (.runtime e)) ∨
      ∃ fault, (n.evalWithin host calls scope w).1 = .error (.fault fault) ∧
        fault.Arises host.files := by
  have honly := n.raises_evalWithin host calls scope w
  generalize (n.evalWithin host calls scope w).1 = r at honly
  rcases r with e | v
  · cases honly e rfl with
    | runtime e => exact .inr (.inl ⟨e, rfl⟩)
    | fault h => exact .inr (.inr ⟨_, rfl, h⟩)
  · exact .inl ⟨v, rfl⟩

/-- A path that holds a null character, and a text repeated more often than can be counted, are failures of
the host. -/
theorem Node.evalWithin_fault :
    ((Node.read (.str "\x00")).evalWithin ⟨Files.empty, false, .ofCalls 1000⟩ 0 0 default).1 =
        .error (.fault .nulInPath) ∧
      ((Node.binary .mul (.str "a") (.int 0x8000000000000000)).evalWithin
        ⟨Files.empty, false, .ofCalls 1000⟩ 0 0 default).1 = .error (.fault .repeatOverflow) :=
  ⟨rfl, rfl⟩

end Kestrel
