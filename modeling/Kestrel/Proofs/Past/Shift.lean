import Kestrel.Proofs.Scopes.Closure

/-!
# Values in another numbering of the scopes

A function holds the number of its scope, and nothing else in a value depends on how scopes are
numbered. Here all these numbers are raised. It shows in no text of a value and in no result of an operator.

* `Value.shift`, `Bindings.shift` — a value and bindings, with all scopes raised;
* `Value.text?_shift` — nothing can be seen of it;
* `BinaryOp.apply_shift` and others — operators and built-in functions do not depend on it.
-/

namespace Kestrel

namespace Value

mutual

/-- The value with the scopes of its functions raised by `k`. -/
def shift (k : Nat) : Value → Value
  | int n => int n
  | str s => str s
  | bool b => bool b
  | none => none
  | list vs => list (shiftAll k vs)
  | record es => record (shiftEntries k es)
  | function params body scope name => function params body (scope + k) name

/-- Several values with their scopes raised. -/
def shiftAll (k : Nat) : List Value → List Value
  | [] => []
  | v :: vs => shift k v :: shiftAll k vs

/-- The values of several names with their scopes raised. -/
def shiftEntries (k : Nat) : List (String × Value) → List (String × Value)
  | [] => []
  | (key, v) :: es => (key, shift k v) :: shiftEntries k es

end

variable (k : Nat)

theorem shiftAll_eq_map (vs : List Value) : shiftAll k vs = vs.map (shift k) := by
  induction vs with
  | nil => rfl
  | cons v vs ih => rw [shiftAll, ih, List.map_cons]

/-! ### What is seen of a value -/

mutual

/-- A value keeps its text. -/
@[simp] theorem text?_shift : (v : Value) → (v.shift k).text? = v.text?
  | int _ | str _ | bool _ | none => rfl
  | list vs => by rw [shift, text?, text?, texts?_shiftAll vs]
  | record es => by rw [shift, text?, text?, entryTexts?_shiftEntries es]
  | function _ _ _ _ => rfl

theorem texts?_shiftAll : (vs : List Value) → texts? (shiftAll k vs) = texts? vs
  | [] => rfl
  | v :: vs => by rw [shiftAll, texts?, texts?, text?_shift v, texts?_shiftAll vs]

theorem entryTexts?_shiftEntries :
    (es : List (String × Value)) → entryTexts? (shiftEntries k es) = entryTexts? es
  | [] => rfl
  | (_, v) :: es => by
    rw [shiftEntries, entryTexts?, entryTexts?, text?_shift v, entryTexts?_shiftEntries es]

end

@[simp] theorem texts?_map_shift (vs : List Value) : texts? (vs.map (shift k)) = texts? vs := by
  rw [← shiftAll_eq_map, texts?_shiftAll]

@[simp] theorem textOf_shift (v : Value) : (v.shift k).textOf = v.textOf := by
  rw [textOf, textOf, text?_shift]

mutual

/-- A value that holds no function stays as it is. -/
theorem shift_of_closures_eq_nil : {v : Value} → v.closures = [] → v.shift k = v
  | int _, _ | str _, _ | bool _, _ | none, _ => rfl
  | list _, h => by rw [shift, shiftAll_of_closures_eq_nil h]
  | record _, h => by rw [shift, shiftEntries_of_closures_eq_nil h]
  | function _ _ _ _, h => nomatch h

theorem shiftAll_of_closures_eq_nil : {vs : List Value} → closuresOfAll vs = [] → shiftAll k vs = vs
  | [], _ => rfl
  | _ :: _, h => by
    obtain ⟨hv, hvs⟩ := List.append_eq_nil_iff.mp h
    rw [shiftAll, shift_of_closures_eq_nil hv, shiftAll_of_closures_eq_nil hvs]

theorem shiftEntries_of_closures_eq_nil :
    {es : List (String × Value)} → closuresOfEntries es = [] → shiftEntries k es = es
  | [], _ => rfl
  | (_, _) :: _, h => by
    obtain ⟨hv, hes⟩ := List.append_eq_nil_iff.mp h
    rw [shiftEntries, shift_of_closures_eq_nil hv, shiftEntries_of_closures_eq_nil hes]

end

/-- A result that holds no function stays as it is. -/
theorem map_shift_of_closures_eq_nil {r : Except Failure Value}
    (h : ∀ v, r = .ok v → v.closures = []) : r.map (shift k) = r := by
  cases r with
  | error e => rfl
  | ok v => exact congrArg Except.ok (shift_of_closures_eq_nil k (h v rfl))

/-! ### Operators and built-in functions -/

theorem joinTexts_shift (x y : Value) : joinTexts (x.shift k) (y.shift k) = joinTexts x y := by
  rw [joinTexts, joinTexts, textOf_shift, textOf_shift]

theorem expectStr_shift (operation : String) (v : Value) :
    (v.shift k).expectStr operation = v.expectStr operation := by
  cases v <;> rfl

end Value

variable (k : Nat)

/-- An operator gives the same whatever the numbers of the scopes are. -/
theorem BinaryOp.apply_shift (op : BinaryOp) (x y : Value) :
    op.apply (x.shift k) (y.shift k) = (op.apply x y).map (Value.shift k) := by
  rw [Value.map_shift_of_closures_eq_nil k fun _ => closures_apply]
  have hjoin := Value.joinTexts_shift k x y
  cases op with
  | concat => exact hjoin
  | add =>
    cases x with
    | str _ => exact hjoin
    | _ =>
      cases y with
      | str _ => exact hjoin
      | _ => rfl
  | _ => cases x <;> cases y <;> rfl

theorem UnaryOp.apply_shift (op : UnaryOp) (x : Value) :
    op.apply (x.shift k) = (op.apply x).map (Value.shift k) := by
  rw [Value.map_shift_of_closures_eq_nil k fun _ => closures_apply]
  cases op <;> cases x <;> rfl

theorem Value.split_shift (x y : Value) :
    Value.split (x.shift k) (y.shift k) = (Value.split x y).map (Value.shift k) := by
  rw [Value.map_shift_of_closures_eq_nil k fun _ => Value.closures_split]
  cases x <;> cases y <;> rfl

/-! ### Bindings -/

/-- Bindings with the scopes in their values raised. -/
def Bindings.shift (bs : Bindings) : Bindings := bs.map fun b => (b.1, b.2.shift k)

namespace Bindings

theorem binds_shift (bs : Bindings) (name : String) : (bs.shift k).binds name = bs.binds name := by
  rw [binds, binds, shift, List.any_map]
  rfl

theorem lookup_shift (bs : Bindings) (name : String) :
    (bs.shift k).lookup name = (bs.lookup name).map (Value.shift k) := by
  induction bs with
  | nil => rfl
  | cons b bs ih =>
    obtain ⟨key, v⟩ := b
    rw [shift, List.map_cons, List.lookup_cons, List.lookup_cons]
    cases name == key with
    | true => rfl
    | false => exact ih

theorem insert_shift (bs : Bindings) (name : String) (v : Value) :
    insert name (v.shift k) (bs.shift k) = (insert name v bs).shift k := by
  induction bs with
  | nil => rfl
  | cons b bs ih =>
    obtain ⟨key, old⟩ := b
    rw [shift, List.map_cons, insert, insert]
    split
    · rfl
    · exact congrArg _ ih

/-- Parameters are bound to raised arguments as they are to the arguments. -/
theorem ofList_zip_shift (params : List String) (args : List Value) :
    ofList (params.zip (args.map (Value.shift k))) = (ofList (params.zip args)).shift k := by
  have from_some (bs : Bindings) :
      (params.zip (args.map (Value.shift k))).foldl (fun bs e => insert e.1 e.2 bs) (bs.shift k) =
        ((params.zip args).foldl (fun bs e => insert e.1 e.2 bs) bs).shift k := by
    induction params generalizing args bs with
    | nil => rfl
    | cons param params ih =>
      cases args with
      | nil => rfl
      | cons arg args =>
        rw [List.map_cons, List.zip_cons_cons, List.zip_cons_cons, List.foldl_cons, List.foldl_cons,
          insert_shift]
        exact ih args _
  exact from_some []

end Bindings

end Kestrel
