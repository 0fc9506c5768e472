import Kestrel.Proofs.Tracing.Muted
import Kestrel.Proofs.Tracing.Writable
import Mathlib.Data.Int.Range

/-!
# Loops written out

A loop does what a block does in which its turns are written out: before each of them the name of the
loop is given the next integer. This holds whatever the body does to that name or to the names in the
bounds, since the bounds are known before the first turn. Only the traces differ, because a loop is noted
once and the statements of a block are noted one by one.

* `SameButTrace` — two runs that differ in their traces at most;
* `Node.unrolled` — a loop written out;
* `Node.evalWithin_unrolled` — a loop written out runs turn by turn;
* `Node.forLoop_unrolled` — a loop and the same loop written out.
-/

namespace Kestrel

/-- The outcomes of two runs, which differ in their traces at most. -/
structure SameButTrace {α : Type} (r r' : Except Failure α × World) : Prop where
  /-- the same value or the same failure -/
  outcome : r'.1 = r.1
  /-- the same is printed -/
  output : r'.2.output = r.2.output
  /-- all scopes are the same -/
  store : r'.2.store = r.2.store

namespace SameButTrace

variable {α : Type}

theorem refl (r : Except Failure α × World) : SameButTrace r r := ⟨rfl, rfl, rfl⟩

/-- Two computations that are the same one without their traces. -/
theorem of_muted {m m' n : Eval α} (hm : m.Muted (fun _ => False) n)
    (hm' : m'.Muted (fun _ => False) n) (w : World) : SameButTrace (m w) (m' w) := by
  have heq : ((m w).1, (m w).2.withTrace w.trace) = ((m' w).1, (m' w).2.withTrace w.trace) :=
    (hm.run w w.trace).same.symm.trans (hm'.run w w.trace).same
  exact ⟨(congrArg (·.1) heq).symm, (congrArg (·.2.output) heq).symm,
    (congrArg (·.2.store) heq).symm⟩

end SameButTrace

/-! ### Turns -/

namespace Node

/-- One turn of a loop: the name is given an integer, and then comes the body. -/
def turn (name : String) (body : Node) (i : Int) : List Node := [.assign name (.int i), body]

/-- A loop written out: a turn for each integer from the first one to the last one. -/
def unrolled (name : String) (first last : Int) (body : Node) : Node :=
  .block ((Int.range first (last + 1)).flatMap (turn name body))

end Node

theorem range_eq_nil {m n : Int} (h : n ≤ m) : Int.range m n = [] := by
  rw [Int.range, Int.toNat_of_nonpos (by omega)]
  rfl

theorem range_eq_cons {m n : Int} (h : m < n) : Int.range m n = m :: Int.range (m + 1) n := by
  have hcount : (n - m).toNat = (n - (m + 1)).toNat + 1 := by omega
  rw [Int.range, Int.range, hcount, List.range_succ_eq_map, List.map_cons, List.map_map]
  refine congrArg₂ _ (by simp) (List.map_congr_left fun k _ => ?_)
  rw [Function.comp_apply]
  omega

section Turns

variable (host : Host) (scope : ScopeId) (name : String) (body : Node)

/-- Where no trace is kept, a turn is noted nowhere. -/
theorem Node.evalBlock_turn (run : Runner) {i : Int} (hi : (Value.int i).Writable) (ns : List Node)
    (last : Value) :
    Node.evalBlock host.untraced run scope (turn name body i ++ ns) last = (do
      Eval.assign scope name (.int i)
      let v ← body.evalWith host.untraced run scope
      Node.evalBlock host.untraced run scope ns v) := by
  obtain ⟨text, htext⟩ := Option.isSome_iff_exists.mp hi
  have hnote (message : String) : Eval.note host.untraced scope message = pure () := rfl
  have htextOf : Eval.ofExcept (Value.int i).textOf = pure text := by
    rw [Value.textOf, htext]
    rfl
  simp only [turn, List.cons_append, List.nil_append, Node.evalBlock, Node.evalWith, hnote, htextOf,
    Eval.pure_bind, Eval.bind_assoc]

/-- The turns of a loop, one after the other. -/
theorem Node.evalBlock_turns (run : Runner) {first stop : Int} (v : Value)
    (hwritable : ∀ i, first ≤ i → i < stop → (Value.int i).Writable) :
    Node.evalBlock host.untraced run scope ((Int.range first stop).flatMap (turn name body)) v =
      Eval.forEach (fun i => do
        Eval.assign scope name (.int i)
        body.evalWith host.untraced run scope) (stop - first).toNat first v := by
  generalize hcount : (stop - first).toNat = count
  induction count generalizing first v with
  | zero =>
    rw [range_eq_nil (by omega)]
    rfl
  | succ count ih =>
    rw [range_eq_cons (by omega), List.flatMap_cons,
      Node.evalBlock_turn host scope name body run (hwritable first (le_refl first) (by omega)),
      Eval.forEach, Eval.bind_assoc]
    refine congrArg _ (funext fun _ => congrArg _ (funext fun v => ?_))
    exact ih v (fun i hi => hwritable i (by omega)) (by omega)

/-- Where no trace is kept, a loop written out runs turn by turn. -/
theorem Node.evalWithin_unrolled (calls : Nat) {a b : Int} (ha : (Value.int a).Writable)
    (hb : (Value.int b).Writable) :
    (Node.unrolled name a b body).evalWithin host.untraced calls scope =
      Eval.forEach (fun i => do
        Eval.assign scope name (.int i)
        body.evalWithin host.untraced calls scope) (b + 1 - a).toNat a .none := by
  have hwritable (i : Int) (hi : a ≤ i) (hlt : i < b + 1) : (Value.int i).Writable :=
    Value.writable_of_between ha hb hi (by omega)
  cases calls with
  | zero | succ => exact Node.evalBlock_turns host scope name body _ .none hwritable

end Turns

/-! ### Loops -/

section Loops

variable (host : Host) (calls : Nat) (scope : ScopeId) (name : String) (body : Node)

/-- A loop whose bounds are known. -/
def Eval.loop (a b : Int) : Eval Value := do
  let bounds ← Eval.textsOf [.int a, .int b]
  Eval.note host scope ("for " ++ name ++ " in " ++ "..".intercalate bounds)
  Eval.forEach (fun i => do
    Eval.assign scope name (.int i)
    body.evalWithin host calls scope) (b + 1 - a).toNat a .none

theorem Node.evalWithin_forLoop (first last : Node) :
    (Node.forLoop name first last body).evalWithin host calls scope = (do
      match ← first.evalWithin host calls scope with
      | .int a =>
        match ← last.evalWithin host calls scope with
        | .int b => Eval.loop host calls scope name body a b
        | _ => pure .none
      | _ => pure .none) := by
  cases calls with
  | zero | succ => rfl

/-- The bounds of a loop, the second one only if the first one is an integer, and then the loop written
out if both are. -/
def Eval.boundsThenUnrolled (first last : Node) : Eval Value := do
  match ← first.evalWithin host calls scope with
  | .int a =>
    match ← last.evalWithin host calls scope with
    | .int b => (Node.unrolled name a b body).evalWithin host calls scope
    | _ => pure .none
  | _ => pure .none

variable {host calls scope name body}

theorem Eval.loop_unrolled {a b : Int} (ha : (Value.int a).Writable) (hb : (Value.int b).Writable)
    (w : World) :
    SameButTrace (Eval.loop host calls scope name body a b w)
      ((Node.unrolled name a b body).evalWithin host calls scope w) := by
  obtain ⟨s, hs⟩ := Option.isSome_iff_exists.mp ha
  obtain ⟨t, ht⟩ := Option.isSome_iff_exists.mp hb
  have hbounds : Eval.textsOf [.int a, .int b] = pure [s, t] := by
    rw [Eval.textsOf, Value.texts?, Value.texts?, Value.texts?, hs, ht]
  refine .of_muted (n := (Node.unrolled name a b body).evalWithin host.untraced calls scope) ?_
    (Node.muted_evalWithin _ host calls scope _) w
  rw [Node.evalWithin_unrolled host scope name body calls ha hb, Eval.loop, hbounds,
    Eval.pure_bind]
  refine .bind (.note_none host scope _) fun _ => .forEach (fun i => ?_) _ _ _
  exact .bind (.assign scope name _) fun _ => Node.muted_evalWithin _ host calls scope body

end Loops

/-- A loop does the same as the loop written out.

Between two integers of at most `digitLimit` digits, and however they compare, the loop gives the same
value or the same failure as the block of its turns, prints the same and leaves the same scopes.

Any other bounds are evaluated first: the first one once, and then, if it is an integer, the second one
once. If both are integers of at most `digitLimit` digits the rest is the loop written out between them,
and if one is no integer there is nothing left to do. -/
theorem Node.forLoop_unrolled (host : Host) (calls : Nat) (scope : ScopeId) (name : String)
    (body : Node) (w : World) :
    (∀ a b : Int, Text.WithinLimit a → Text.WithinLimit b →
      SameButTrace ((Node.forLoop name (.int a) (.int b) body).evalWithin host calls scope w)
        ((Node.unrolled name a b body).evalWithin host calls scope w)) ∧
    ∀ first last : Node,
      (∀ a b w₁ w₂, first.evalWithin host calls scope w = (.ok (.int a), w₁) →
        last.evalWithin host calls scope w₁ = (.ok (.int b), w₂) →
        Text.WithinLimit a ∧ Text.WithinLimit b) →
      SameButTrace ((Node.forLoop name first last body).evalWithin host calls scope w)
        (Eval.boundsThenUnrolled host calls scope name body first last w) := by
  have hint (n : Int) : (Node.int n).evalWithin host calls scope = pure (.int n) := by
    cases calls with
    | zero | succ => rfl
  refine ⟨fun a b ha hb => ?_, fun first last hbounds => ?_⟩
  · rw [Node.evalWithin_forLoop, hint, hint, Eval.pure_bind]
    dsimp only
    rw [Eval.pure_bind]
    exact Eval.loop_unrolled (Value.writable_int_iff.mpr ha) (Value.writable_int_iff.mpr hb) w
  · rw [Node.evalWithin_forLoop, Eval.boundsThenUnrolled, Eval.bind_run, Eval.bind_run]
    rcases hfirst : first.evalWithin host calls scope w with ⟨e | v, w₁⟩
    · exact .refl _
    cases v with
    | int a =>
      dsimp only
      rw [Eval.bind_run, Eval.bind_run]
      rcases hlast : last.evalWithin host calls scope w₁ with ⟨e | v, w₂⟩
      · exact .refl _
      cases v with
      | int b =>
        obtain ⟨ha, hb⟩ := hbounds a b w₁ w₂ hfirst hlast
        exact Eval.loop_unrolled (Value.writable_int_iff.mpr ha) (Value.writable_int_iff.mpr hb) w₂
      | _ => exact .refl _
    | _ => exact .refl _

/-- Loops whose body changes the name in a bound and declares a function under the name of the loop. -/
theorem Node.forLoop_unrolled_overwritten :
    let host : Host := ⟨Files.empty, true, .ofCalls 1000⟩
    let w : World := ⟨Store.root [("n", .int 2)], "", ""⟩
    let body : Node :=
      .block [.print (.var "i"), .assign "n" (.int 0), .declare "i" [] (.var "n")]
    (Text.WithinLimit (-1) ∧ Text.WithinLimit 1 ∧
      SameButTrace ((Node.forLoop "i" (.int (-1)) (.int 1) body).evalWithin host 3 0 w)
        ((Node.unrolled "i" (-1) 1 body).evalWithin host 3 0 w)) ∧
    ((Node.var "n").evalWithin host 3 0 w = (.ok (.int 2), w) ∧
      SameButTrace ((Node.forLoop "i" (.int 1) (.var "n") body).evalWithin host 3 0 w)
        (Eval.boundsThenUnrolled host 3 0 "i" body (.int 1) (.var "n") w)) := by
  intro host w body
  have hlow : Text.WithinLimit (-1) := by decide +kernel
  have hone : Text.WithinLimit 1 := by decide +kernel
  have htwo : Text.WithinLimit 2 := by decide +kernel
  have hvar : (Node.var "n").evalWithin host 3 0 w = (.ok (.int 2), w) := by
    rw [Node.evalWithin, Node.evalWith, Eval.lookup, Store.lookup?_root]
    rfl
  have hunrolled := Node.forLoop_unrolled host 3 0 "i" body w
  refine ⟨⟨hlow, hone, hunrolled.1 _ _ hlow hone⟩, hvar, hunrolled.2 _ _ ?_⟩
  intro a b w₁ w₂ hfirst hlast
  cases hfirst
  rw [hvar] at hlast
  cases hlast
  exact ⟨hone, htwo⟩

end Kestrel
