import Kestrel.Proofs.Scopes.Closure
import Mathlib.Data.List.Find

/-!
# What a write changes

Scopes form a forest, and many of them share the scopes around them. Giving a name a value in one
scope is seen from all scopes inside it, unless a scope between binds the name too. This file says
where exactly a write is seen, and compares a course of writes and new scopes with scopes as they are
meant: each one a table of names, inside a row of other ones.

* `World.Written` — a world in which a single binding was written, and what is seen of it from every
  scope;
* `Nest` — scopes as they are meant, with a name resolved by the innermost table that holds it;
* `ScopeStep` — a new scope, or a name given a value in one of the two ways;
* `Store.writes_exactly` — a write changes one binding, and scopes behave as they are meant after any
  course of steps.
-/

namespace Kestrel

/-! ### One write -/

namespace Store

variable {s : Store} {i j t : ScopeId} {name key : String} {v : Value}

/-- A chain leads to older scopes. -/
theorem le_of_mem_chain (h : j ∈ s.chain i) : j ≤ i := by
  fun_induction chain s i with
  | case1 i p hp hlt ih =>
    rcases List.mem_cons.mp h with rfl | h
    · exact Nat.le_refl _
    · exact Nat.le_of_lt (Nat.lt_of_le_of_lt (ih h) hlt)
  | case2 i p hp hlt => simp_all
  | case3 i hp => simp_all

theorem target_lt_size (hi : i < s.size) (name : String) : s.target i name < s.size :=
  Nat.lt_of_le_of_lt (le_of_mem_chain (target_mem_chain s i name)) hi

/-- The scope that is written to binds the new value, and every other binding of the forest stays. -/
theorem lookup_bindings_define (hi : i < s.size) :
    ((s.define i name v).bindings j).lookup key =
      if j = i ∧ key = name then some v else (s.bindings j).lookup key := by
  rw [bindings_define]
  by_cases hj : j = i
  · subst hj
    simp [hi, Bindings.lookup_insert]
  · simp [hj]

theorem binds_bindings_define (hi : i < s.size) :
    ((s.define i name v).bindings j).binds key =
      (decide (j = i ∧ key = name) || (s.bindings j).binds key) := by
  rw [← Bindings.isSome_lookup, lookup_bindings_define hi, ← Bindings.isSome_lookup]
  by_cases h : j = i ∧ key = name <;> simp [h]

/-- The scopes that bind another name are the ones that did. -/
theorem owner?_define_of_ne (hi : i < s.size) (h : key ≠ name) :
    (s.define i name v).owner? t key = s.owner? t key := by
  rw [owner?, owner?, chain_define]
  refine List.find?_congr fun j _ => ?_
  simp [binds_bindings_define hi, h]

/-- One more scope that fits comes into question only where it is the first one found. -/
private theorem find?_eq_of_ne_some {p q : ScopeId → Bool} {l : List ScopeId} (hp : p i = true)
    (hpq : ∀ j, j ≠ i → p j = q j) (h : l.find? p ≠ some i) : l.find? p = l.find? q := by
  induction l with
  | nil => rfl
  | cons k l ih =>
    have hk : k ≠ i := by
      rintro rfl
      exact h (List.find?_cons_of_pos hp)
    rw [List.find?_cons, List.find?_cons, ← hpq k hk]
    rw [List.find?_cons] at h
    cases hpk : p k with
    | true => rfl
    | false => exact ih (by simpa [hpk] using h)

/-- From where the scope that was written to is not the nearest one to bind the name, the nearest one
is what it was. -/
theorem owner?_define_of_ne_some (hi : i < s.size)
    (h : (s.define i name v).owner? t name ≠ some i) :
    (s.define i name v).owner? t name = s.owner? t name := by
  rw [owner?, chain_define] at h
  rw [owner?, owner?, chain_define]
  refine find?_eq_of_ne_some ?_ (fun j hj => ?_) h
  · simp [binds_bindings_define hi]
  · simp [binds_bindings_define hi, hj]

/-- A write is seen from the scopes for which the scope that was written to is now the nearest one to
bind the name, and from no others. -/
theorem lookup?_define (hi : i < s.size) :
    (s.define i name v).lookup? t key =
      if key = name ∧ (s.define i name v).owner? t name = some i then some v
      else s.lookup? t key := by
  by_cases hkey : key = name
  · subst hkey
    by_cases howner : (s.define i key v).owner? t key = some i
    · simp [lookup?, howner, lookup_bindings_define hi]
    · rw [if_neg fun h => howner h.2, lookup?, lookup?, ← owner?_define_of_ne_some hi howner]
      refine Option.bind_congr fun j hj => ?_
      have hji : j ≠ i := fun h => howner (h ▸ hj)
      simp [lookup_bindings_define hi, hji]
  · rw [if_neg fun h => hkey h.1, lookup?, lookup?, owner?_define_of_ne hi hkey]
    refine Option.bind_congr fun j _ => ?_
    simp [lookup_bindings_define hi, hkey]

end Store

namespace Eval

theorem lookup_fst (scope : ScopeId) (name : String) (w : World) :
    (lookup scope name w).1 =
      (w.store.lookup? scope name).elim (.error (.runtime (.undefinedVariable name))) .ok := by
  rw [lookup]
  cases w.store.lookup? scope name <;> rfl

end Eval

/-- The second world is the first one with the name given the value in the scope `i`, and with nothing
else changed. -/
structure World.Written (i : ScopeId) (name : String) (v : Value) (w w' : World) : Prop where
  /-- no scope is new -/
  size : w'.store.size = w.store.size
  /-- scopes lie inside the scopes they did -/
  parent? : ∀ j, w'.store.parent? j = w.store.parent? j
  /-- the scope binds the name to the value -/
  bound : (w'.store.bindings i).lookup name = some v
  /-- the other names of this scope keep their values -/
  kept : ∀ key, key ≠ name →
    (w'.store.bindings i).lookup key = (w.store.bindings i).lookup key
  /-- they keep their places too, and only the written name can be new -/
  names : (w'.store.bindings i).names =
    if (w.store.bindings i).binds name then (w.store.bindings i).names
    else (w.store.bindings i).names ++ [name]
  /-- every other scope binds what it did -/
  others : ∀ j, j ≠ i → w'.store.bindings j = w.store.bindings j
  /-- from every scope a name has the value or the failure that it had, unless it is the written one
  and the scope that was written to is now the nearest one to bind it -/
  seen : ∀ t key, (Eval.lookup t key w').1 =
    if key = name ∧ w'.store.owner? t name = some i then .ok v else (Eval.lookup t key w).1
  /-- nothing is printed or noted -/
  quiet : w'.output = w.output ∧ w'.trace = w.trace

theorem World.written_define {w : World} {i : ScopeId} (hi : i < w.store.size) (name : String)
    (v : Value) : w.Written i name v ⟨w.store.define i name v, w.output, w.trace⟩ where
  size := by simp
  parent? j := by simp
  bound := by simp [Store.lookup_bindings_define hi]
  kept key h := by simp [Store.lookup_bindings_define hi, h]
  names := by simp [Store.bindings_define, hi, Bindings.names_insert, Bindings.binds_iff]
  others j hj := by simp [Store.bindings_define, hj]
  seen t key := by
    rw [Eval.lookup_fst, Eval.lookup_fst, Store.lookup?_define hi]
    split <;> rfl
  quiet := ⟨rfl, rfl⟩

/-- Defining a name writes it in the scope itself. -/
theorem Eval.define_written {w : World} {i : ScopeId} (hi : i < w.store.size) (name : String)
    (v : Value) : ∃ w', Eval.define i name v w = (.ok (), w') ∧ w.Written i name v w' :=
  ⟨_, rfl, World.written_define hi name v⟩

/-- Assigning to a name writes it where it is bound, or else in the scope itself. -/
theorem Eval.assign_written {w : World} {i : ScopeId} (hi : i < w.store.size) (name : String)
    (v : Value) :
    ∃ w', Eval.assign i name v w = (.ok (), w') ∧ w.Written (w.store.target i name) name v w' :=
  ⟨_, rfl, World.written_define (Store.target_lt_size hi name) name v⟩

/-! ### Scopes as they are meant -/

/-- Scopes as they are meant: tables of names and values, each inside a row of other ones. -/
@[ext]
structure Nest where
  /-- how many scopes there are -/
  size : Nat
  /-- what a scope itself holds -/
  table : ScopeId → String → Option Value
  /-- a scope and those around it, from the inside out -/
  path : ScopeId → List ScopeId

/-- A step in the life of scopes. -/
inductive ScopeStep where
  /-- makes a scope inside another one -/
  | child (parent : ScopeId) (bindings : Bindings)
  /-- gives a name a value in the scope itself -/
  | define (scope : ScopeId) (name : String) (value : Value)
  /-- gives a name a value where it is bound, or else in the scope itself -/
  | assign (scope : ScopeId) (name : String) (value : Value)

namespace Nest

/-- What the innermost scope that holds a name holds under it. -/
def resolve (n : Nest) (t : ScopeId) (name : String) : Option Value :=
  (n.path t).findSome? fun j => n.table j name

/-- A name put into the table of a scope. -/
def put (n : Nest) (i : ScopeId) (name : String) (v : Value) : Nest :=
  { n with table := fun j key => if j = i ∧ key = name then some v else n.table j key }

/-- A step on scopes as they are meant. -/
def step (n : Nest) : ScopeStep → Nest
  | .child p bs =>
    { size := n.size + 1
      table := fun j => if j = n.size then fun key => bs.lookup key else n.table j
      path := fun j => if j = n.size then n.size :: n.path p else n.path j }
  | .define i name v => n.put i name v
  | .assign i name v =>
    match (n.path i).find? fun j => (n.table j name).isSome with
    | some j => n.put j name v
    | none => n.put i name v

/-- Several steps, one after another. -/
def run (n : Nest) (steps : List ScopeStep) : Nest := steps.foldl step n

end Nest

namespace ScopeStep

/-- The scope that a step is made in. -/
def scope : ScopeStep → ScopeId
  | child p _ => p
  | define i _ _ | assign i _ _ => i

/-- How many scopes there are after a step. -/
def grown (size : Nat) : ScopeStep → Nat
  | child _ _ => size + 1
  | define _ _ _ | assign _ _ _ => size

/-- Every step is made in a scope that is there by then. -/
def Admitted : Nat → List ScopeStep → Prop
  | _, [] => True
  | size, step :: steps => step.scope < size ∧ Admitted (step.grown size) steps

instance decidableAdmitted : (size : Nat) → (steps : List ScopeStep) → Decidable (Admitted size steps)
  | _, [] => isTrue trivial
  | size, step :: steps =>
    have := decidableAdmitted (step.grown size) steps
    inferInstanceAs (Decidable (_ ∧ _))

/-- A step as a computation. -/
def perform : ScopeStep → Eval Unit
  | child p bs => do
    let _ ← Eval.newScope p bs
    pure ()
  | define i name v => Eval.define i name v
  | assign i name v => Eval.assign i name v

/-- Several steps as a computation. -/
def performAll : List ScopeStep → Eval Unit
  | [] => pure ()
  | step :: steps => do
    step.perform
    performAll steps

end ScopeStep

/-! ### The store as it is meant -/

namespace Store

variable {s : Store}

/-- The scopes of a store as they are meant. -/
def nest (s : Store) : Nest where
  size := s.size
  table j name := (s.bindings j).lookup name
  path := s.chain

/-- A name is resolved by the nearest scope that binds it. -/
theorem lookup?_eq_resolve (s : Store) (t : ScopeId) (name : String) :
    s.lookup? t name = s.nest.resolve t name := by
  simp only [lookup?, owner?, Nest.resolve, nest]
  induction s.chain t with
  | nil => rfl
  | cons j l ih =>
    rw [List.find?_cons, List.findSome?_cons, ← Bindings.isSome_lookup]
    cases h : (s.bindings j).lookup name with
    | some v => simp [h]
    | none => simpa using ih

theorem contains_eq_isSome_lookup? (s : Store) (t : ScopeId) (name : String) :
    s.contains t name = (s.lookup? t name).isSome := by
  rw [contains, lookup?]
  cases h : s.owner? t name with
  | none => rfl
  | some j =>
    have hbinds := List.find?_some h
    rw [← Bindings.isSome_lookup] at hbinds
    simp [hbinds]

theorem nest_define {i : ScopeId} (hi : i < s.size) (name : String) (v : Value) :
    (s.define i name v).nest = s.nest.put i name v := by
  ext1
  · simp [nest, Nest.put]
  · funext j key
    simp [nest, Nest.put, lookup_bindings_define hi]
  · funext j
    simp [nest, Nest.put]

theorem nest_assign {i : ScopeId} (hi : i < s.size) (name : String) (v : Value) :
    (s.assign i name v).nest = s.nest.step (.assign i name v) := by
  have howner : s.owner? i name =
      (s.nest.path i).find? fun j => (s.nest.table j name).isSome := by
    simp only [owner?, nest, Bindings.isSome_lookup]
  rw [assign_eq, nest_define (target_lt_size hi name), Nest.step, ← howner, target]
  cases s.owner? i name <;> rfl

/-- A scope that is not there has no scopes around it. -/
theorem chain_of_size_le {i : ScopeId} (h : s.size ≤ i) : s.chain i = [i] := by
  have hparent : s.parent? i = none := by rw [parent?, Array.getElem?_eq_none h]
  rw [chain, hparent]

theorem nest_push {p : ScopeId} (hp : p < s.size) (bs : Bindings) :
    (s.push (some p) bs).nest = s.nest.step (.child p bs) := by
  ext1
  · simp [nest, Nest.step]
  · funext j key
    by_cases hj : j = s.size <;> simp [nest, Nest.step, bindings_push, hj]
  · funext j
    rcases Nat.lt_trichotomy j s.size with hj | rfl | hj
    · simp [nest, Nest.step, chain_push_of_lt hj, Nat.ne_of_lt hj]
    · simp only [nest, Nest.step]
      rw [chain, parent?_push]
      simp [hp, chain_push_of_lt hp]
    · have hsize : (s.push (some p) bs).size ≤ j := by
        rw [size_push]
        exact hj
      simp [nest, Nest.step, chain_of_size_le hsize, chain_of_size_le (Nat.le_of_lt hj),
        Nat.ne_of_gt hj]

end Store

/-- A step in a scope that is there does to the scopes what is meant. -/
theorem ScopeStep.perform_nest {w : World} {step : ScopeStep} (h : step.scope < w.store.size) :
    ∃ w', step.perform w = (.ok (), w') ∧ w'.store.nest = w.store.nest.step step ∧
      w'.store.size = step.grown w.store.size := by
  cases step with
  | child p bs => exact ⟨_, rfl, Store.nest_push h bs, Store.size_push _ _ _⟩
  | define i name v => exact ⟨_, rfl, Store.nest_define h name v, Store.size_define _ _ _ _⟩
  | assign i name v => exact ⟨_, rfl, Store.nest_assign h name v, Store.size_define _ _ _ _⟩

/-- So does a course of steps. -/
theorem ScopeStep.performAll_nest {w : World} {steps : List ScopeStep}
    (h : Admitted w.store.size steps) :
    ∃ w', performAll steps w = (.ok (), w') ∧ w'.store.nest = w.store.nest.run steps := by
  induction steps generalizing w with
  | nil => exact ⟨w, rfl, rfl⟩
  | cons step steps ih =>
    obtain ⟨w₁, hstep, hnest, hsize⟩ := perform_nest h.1
    obtain ⟨w₂, hrun, hnest'⟩ := ih (hsize ▸ h.2)
    refine ⟨w₂, ?_, ?_⟩
    · rw [performAll, Eval.bind_run, hstep]
      exact hrun
    · rw [hnest', hnest]
      rfl

/-- Giving a name a value changes one binding, in the scope where the name is bound or in the scope
itself, and is seen from exactly the scopes for which that scope is now the nearest one to bind the
name. After any course of new scopes and writes, what a name stands for and whether it stands for
something is what the innermost table that holds it says. -/
theorem Store.writes_exactly :
    (∀ (w : World) (i : ScopeId) (name : String) (v : Value), i < w.store.size →
      (∃ w', Eval.assign i name v w = (.ok (), w') ∧
        w.Written (w.store.target i name) name v w') ∧
      ∃ w', Eval.define i name v w = (.ok (), w') ∧ w.Written i name v w') ∧
    ∀ (w : World) (steps : List ScopeStep), ScopeStep.Admitted w.store.size steps →
      ∃ w', ScopeStep.performAll steps w = (.ok (), w') ∧ ∀ t name,
        (Eval.lookup t name w').1 = ((w.store.nest.run steps).resolve t name).elim
          (.error (.runtime (.undefinedVariable name))) .ok ∧
        w'.store.contains t name = ((w.store.nest.run steps).resolve t name).isSome := by
  refine ⟨fun w i name v hi => ⟨Eval.assign_written hi name v, Eval.define_written hi name v⟩,
    fun w steps hsteps => ?_⟩
  obtain ⟨w', hrun, hnest⟩ := ScopeStep.performAll_nest hsteps
  refine ⟨w', hrun, fun t name => ⟨?_, ?_⟩⟩
  · rw [Eval.lookup_fst, lookup?_eq_resolve, hnest]
  · rw [contains_eq_isSome_lookup?, lookup?_eq_resolve, hnest]

/-- A scope that binds a name, with two scopes inside, of which the second one binds it too. -/
def shadedForest : Store :=
  ⟨#[⟨none, [("x", .int 1)]⟩, ⟨some 0, []⟩, ⟨some 0, [("x", .int 3)]⟩]⟩

theorem chain_shadedForest :
    shadedForest.chain 0 = [0] ∧ shadedForest.chain 1 = [1, 0] ∧ shadedForest.chain 2 = [2, 0] := by
  have h0 : shadedForest.chain 0 = [0] := by
    rw [Store.chain]
    rfl
  refine ⟨h0, ?_, ?_⟩ <;> rw [Store.chain, ← h0] <;> rfl

theorem nest_shadedForest :
    shadedForest.nest =
      { size := 3
        table := fun j key => (shadedForest.bindings j).lookup key
        path := fun t => if t = 1 then [1, 0] else if t = 2 then [2, 0] else [t] } := by
  obtain ⟨h0, h1, h2⟩ := chain_shadedForest
  ext1
  · rfl
  · rfl
  · funext t
    match t with
    | 0 => simpa [Store.nest] using h0
    | 1 => simpa [Store.nest] using h1
    | 2 => simpa [Store.nest] using h2
    | t + 3 =>
      have ht : shadedForest.size ≤ t + 3 := Nat.le_add_left 3 t
      simp [Store.nest, Store.chain_of_size_le ht]

/-- Assigning from the child that does not bind the name writes the root. The other child hides that.
A scope made inside the first child sees what is written there last. -/
theorem writes_shadedForest :
    (1 < shadedForest.size ∧
      ∃ w', Eval.assign 1 "x" (.int 9) ⟨shadedForest, "", ""⟩ = (.ok (), w') ∧
        (Eval.lookup 1 "x" w').1 = .ok (.int 9) ∧ (Eval.lookup 2 "x" w').1 = .ok (.int 3)) ∧
    ScopeStep.Admitted shadedForest.size
        [.child 1 [], .assign 3 "x" (.int 9), .define 1 "x" (.int 10)] ∧
      ∃ w', ScopeStep.performAll [.child 1 [], .assign 3 "x" (.int 9), .define 1 "x" (.int 10)]
          ⟨shadedForest, "", ""⟩ = (.ok (), w') ∧
        (Eval.lookup 3 "x" w').1 = .ok (.int 10) ∧ (Eval.lookup 0 "x" w').1 = .ok (.int 9) ∧
        w'.store.contains 3 "y" = false := by
  obtain ⟨h0, h1, h2⟩ := chain_shadedForest
  refine ⟨⟨by decide, ?_⟩, by decide, ?_⟩
  · obtain ⟨w', hrun, hw⟩ := (Store.writes_exactly.1 ⟨shadedForest, "", ""⟩ 1 "x" (.int 9)
      (by decide)).1
    have htarget : shadedForest.target 1 "x" = 0 := by
      rw [Store.target, Store.owner?, h1]
      rfl
    have hstore : w'.store = shadedForest.define 0 "x" (.int 9) := by
      rw [← htarget]
      cases hrun
      rfl
    have howner₁ : w'.store.owner? 1 "x" = some 0 := by
      rw [hstore, Store.owner?, Store.chain_define, h1]
      rfl
    have howner₂ : w'.store.owner? 2 "x" = some 2 := by
      rw [hstore, Store.owner?, Store.chain_define, h2]
      rfl
    refine ⟨w', hrun, ?_, ?_⟩
    · simp [hw.seen, htarget, howner₁]
    · rw [hw.seen, if_neg (by simp [htarget, howner₂]), Eval.lookup_fst, Store.lookup?_eq_resolve,
        nest_shadedForest]
      rfl
  · obtain ⟨w', hrun, hw⟩ := Store.writes_exactly.2 ⟨shadedForest, "", ""⟩
      [.child 1 [], .assign 3 "x" (.int 9), .define 1 "x" (.int 10)] (by decide)
    simp only [nest_shadedForest] at hw
    exact ⟨w', hrun, (hw 3 "x").1, (hw 0 "x").1, (hw 3 "y").2⟩

end Kestrel
