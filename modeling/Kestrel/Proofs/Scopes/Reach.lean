import Kestrel.Proofs.Scopes.Closure
import Mathlib.Data.List.Find

/-!
# Scopes that can be reached

From a scope one can get to its parent, and to the scope of every function that it binds, also inside
lists and records. What evaluation in a scope does depends on the scopes one can get to from there, and
on nothing else in the store. This file has the part of that statement that is about stores.

* `Store.Reach` — the scopes that can be reached from some scopes;
* `Store.AgreesFrom` — two stores of one shape that bind the same wherever one can get to;
* `Store.Coupled` — two stores of one shape that bind the same in a set of scopes from which nothing
  leads out. New scopes belong to the set, so writing in it and making scopes in it keeps two stores
  coupled, though what can be reached changes;
* `Store.Untouched` — a later store with nothing changed outside the set.
-/

namespace Kestrel

namespace Store

/-- The scope can be reached from one of the roots. -/
inductive Reach (s : Store) (roots : List ScopeId) : ScopeId → Prop where
  /-- a root -/
  | root {i : ScopeId} : i ∈ roots → Reach s roots i
  /-- the parent of a scope that can be reached -/
  | parent {i p : ScopeId} : Reach s roots i → s.parent? i = some p → Reach s roots p
  /-- the scope of a function in a value that a scope that can be reached binds -/
  | captured {i : ScopeId} {name : String} {v : Value} {f : Closure} :
    Reach s roots i → (name, v) ∈ s.bindings i → f ∈ v.closures → Reach s roots f.home

/-- The stores have the same scopes with the same parents, and bind the same in every scope that can
be reached. -/
structure AgreesFrom (roots : List ScopeId) (s₁ s₂ : Store) : Prop where
  /-- the same scopes -/
  size : s₁.size = s₂.size
  /-- the same parents -/
  parent? : ∀ i, s₁.parent? i = s₂.parent? i
  /-- the same bindings wherever one can get to -/
  bindings : ∀ i, s₁.Reach roots i → s₁.bindings i = s₂.bindings i

/-- What can be reached is reached in both stores. -/
theorem AgreesFrom.reach {roots : List ScopeId} {s₁ s₂ : Store} (h : AgreesFrom roots s₁ s₂)
    {i : ScopeId} (hi : s₁.Reach roots i) : s₂.Reach roots i := by
  induction hi with
  | root hi => exact .root hi
  | parent _ hp ih => exact .parent ih (h.parent? _ ▸ hp)
  | captured hi hv hf ih => exact .captured ih (h.bindings _ hi ▸ hv) hf

/-- The scopes of the functions in a value belong to the set. -/
def Inside (A : ScopeId → Prop) (v : Value) : Prop := ∀ f ∈ v.closures, A f.home

/-- The stores have the same scopes with the same parents and bind the same in the scopes of a set,
from which nothing leads out and to which every new scope belongs. -/
structure Coupled (A : ScopeId → Prop) (s₁ s₂ : Store) : Prop where
  /-- the same scopes -/
  size : s₁.size = s₂.size
  /-- the same parents -/
  parent? : ∀ i, s₁.parent? i = s₂.parent? i
  /-- the same bindings in the set -/
  bindings : ∀ i, A i → s₁.bindings i = s₂.bindings i
  /-- parents belong to the set -/
  parent_mem : ∀ i p, A i → s₁.parent? i = some p → A p
  /-- the scopes of functions belong to the set -/
  home_mem : ∀ i, A i → ∀ f ∈ (s₁.bindings i).closures, A f.home
  /-- scopes that are not there yet belong to the set -/
  new_mem : ∀ i, s₁.size ≤ i → A i

/-- Nothing but scopes in the set and new scopes has changed. -/
structure Untouched (A : ScopeId → Prop) (s s' : Store) : Prop where
  /-- no scope has gone away -/
  size_le : s.size ≤ s'.size
  /-- no scope that was there has a new parent -/
  parent? : ∀ i < s.size, s'.parent? i = s.parent? i
  /-- scopes outside the set bind what they did -/
  bindings : ∀ i, ¬A i → s'.bindings i = s.bindings i

variable {A : ScopeId → Prop} {s s' s'' s₁ s₂ : Store} {i : ScopeId} {name : String} {v : Value}

theorem Untouched.refl : Untouched A s s := ⟨Nat.le_refl _, fun _ _ => rfl, fun _ _ => rfl⟩

theorem Untouched.trans (h : Untouched A s s') (h' : Untouched A s' s'') : Untouched A s s'' where
  size_le := Nat.le_trans h.size_le h'.size_le
  parent? i hi := (h'.parent? i (Nat.lt_of_lt_of_le hi h.size_le)).trans (h.parent? i hi)
  bindings i hi := (h'.bindings i hi).trans (h.bindings i hi)

theorem Coupled.symm (h : Coupled A s₁ s₂) : Coupled A s₂ s₁ where
  size := h.size.symm
  parent? i := (h.parent? i).symm
  bindings i hi := (h.bindings i hi).symm
  parent_mem i p hi hp := h.parent_mem i p hi (h.parent? i ▸ hp)
  home_mem i hi f hf := h.home_mem i hi f (h.bindings i hi ▸ hf)
  new_mem i hi := h.new_mem i (h.size ▸ hi)

/-! ### Writing -/

theorem Untouched.define (hi : A i) : Untouched A s (s.define i name v) where
  size_le := Nat.le_of_eq (size_define s i name v).symm
  parent? j _ := parent?_define s i j name v
  bindings j hj := by
    rw [bindings_define, if_neg]
    rintro ⟨rfl, -⟩
    exact hj hi

theorem Untouched.push (h : Coupled A s₁ s₂) {parent : Option ScopeId} {bs : Bindings} :
    Untouched A s₁ (s₁.push parent bs) where
  size_le := by simp
  parent? j hj := by rw [parent?_push, if_neg (Nat.ne_of_lt hj)]
  bindings j hj := by
    rw [bindings_push, if_neg]
    rintro rfl
    exact hj (h.new_mem _ (Nat.le_refl _))

namespace Coupled

/-- Giving a value to a name in a scope of the set keeps the stores coupled, if the scopes of the
functions in the value belong to the set. -/
theorem define (h : Coupled A s₁ s₂) (hi : A i) (hv : Inside A v) :
    Coupled A (s₁.define i name v) (s₂.define i name v) where
  size := by rw [size_define, size_define, h.size]
  parent? j := by rw [parent?_define, parent?_define, h.parent?]
  bindings j hj := by
    rw [bindings_define, bindings_define, h.size, h.bindings i hi, h.bindings j hj]
  parent_mem j p hj hp := by
    rw [parent?_define] at hp
    exact h.parent_mem j p hj hp
  home_mem j hj f hf := by
    rcases mem_closures_define hf with hf | ⟨-, hf⟩
    · exact h.home_mem j hj f hf
    · exact hv f hf
  new_mem j hj := by
    rw [size_define] at hj
    exact h.new_mem j hj

/-- A new scope inside one of the set keeps the stores coupled. -/
theorem push (h : Coupled A s₁ s₂) (hi : A i) {bs : Bindings} (hbs : ∀ f ∈ bs.closures, A f.home) :
    Coupled A (s₁.push (some i) bs) (s₂.push (some i) bs) where
  size := by rw [size_push, size_push, h.size]
  parent? j := by rw [parent?_push, parent?_push, h.size, h.parent?]
  bindings j hj := by rw [bindings_push, bindings_push, h.size, h.bindings j hj]
  parent_mem j p hj hp := by
    rw [parent?_push] at hp
    split at hp
    · cases hp
      exact hi
    · exact h.parent_mem j p hj hp
  home_mem j hj f hf := by
    rw [bindings_push] at hf
    split at hf
    · exact hbs f hf
    · exact h.home_mem j hj f hf
  new_mem j hj := by
    rw [size_push] at hj
    exact h.new_mem j (Nat.le_of_succ_le hj)

/-! ### Reading -/

theorem mem_of_mem_chain (h : Coupled A s₁ s₂) (hi : A i) : ∀ j ∈ s₁.chain i, A j :=
  forall_mem_chain h.parent_mem hi

theorem chain (h : Coupled A s₁ s₂) (i : ScopeId) : s₁.chain i = s₂.chain i := by
  induction i using Nat.strongRecOn with
  | ind i ih =>
    rw [Store.chain, Store.chain.eq_def s₂, ← h.parent? i]
    split
    case h_1 p hp =>
      split
      case isTrue hlt => rw [ih p hlt]
      case isFalse => rfl
    case h_2 => rfl

theorem owner? (h : Coupled A s₁ s₂) (hi : A i) (name : String) :
    s₁.owner? i name = s₂.owner? i name := by
  rw [Store.owner?, Store.owner?, ← h.chain]
  refine List.find?_congr fun j hj => ?_
  rw [h.bindings j (h.mem_of_mem_chain hi j hj)]

theorem lookup? (h : Coupled A s₁ s₂) (hi : A i) (name : String) :
    s₁.lookup? i name = s₂.lookup? i name := by
  rw [Store.lookup?, Store.lookup?, ← h.owner? hi]
  refine Option.bind_congr fun j hj => ?_
  rw [h.bindings j (h.mem_of_mem_chain hi j (mem_chain_of_owner? hj))]

theorem contains (h : Coupled A s₁ s₂) (hi : A i) : s₁.contains i = s₂.contains i := by
  funext name
  rw [Store.contains, Store.contains, h.owner? hi]

theorem depth (h : Coupled A s₁ s₂) (i : ScopeId) : s₁.depth i = s₂.depth i := by
  rw [Store.depth, Store.depth, h.chain]

/-- A value found from a scope of the set does not lead out of it. -/
theorem inside_of_lookup? (h : Coupled A s₁ s₂) (hi : A i) (hv : s₁.lookup? i name = some v) :
    Inside A v := by
  intro f hf
  obtain ⟨j, hj, hv⟩ := exists_of_lookup? hv
  exact h.home_mem j (h.mem_of_mem_chain hi j hj) f (Bindings.mem_closures_of_lookup hv hf)

/-- A name that is seen from the set is bound in the same place in both stores. -/
theorem target (h : Coupled A s₁ s₂) (hi : A i) (name : String) :
    s₁.target i name = s₂.target i name := by
  rw [Store.target, Store.target, h.owner? hi]

theorem target_mem (h : Coupled A s₁ s₂) (hi : A i) (name : String) : A (s₁.target i name) :=
  h.mem_of_mem_chain hi _ (target_mem_chain s₁ i name)

/-- Giving a value to a name where it is bound keeps the stores coupled: that place belongs to the
set, and it is the same in both stores. -/
theorem assign (h : Coupled A s₁ s₂) (hi : A i) (hv : Inside A v) :
    Coupled A (s₁.assign i name v) (s₂.assign i name v) := by
  rw [assign_eq, assign_eq, ← h.target hi]
  exact h.define (h.target_mem hi name) hv

theorem untouched_assign (h : Coupled A s₁ s₂) (hi : A i) :
    Untouched A s₁ (s₁.assign i name v) :=
  .define (h.target_mem hi name)

/-- What can be reached from the set belongs to it. -/
theorem mem_of_reach (h : Coupled A s₁ s₂) {roots : List ScopeId} (hroots : ∀ r ∈ roots, A r)
    (hi : s₁.Reach roots i) : A i := by
  induction hi with
  | root hi => exact hroots _ hi
  | parent _ hp ih => exact h.parent_mem _ _ ih hp
  | captured _ hv hf ih => exact h.home_mem _ ih _ (Bindings.mem_closures.mpr ⟨_, _, hv, hf⟩)

end Coupled

/-! ### Scopes to begin with -/

/-- The scope can be reached, or is not there yet. -/
def Visible (s : Store) (roots : List ScopeId) (i : ScopeId) : Prop :=
  s.Reach roots i ∨ s.size ≤ i

theorem parent?_of_size_le (h : s.size ≤ i) : s.parent? i = none := by
  rw [Store.parent?, Array.getElem?_eq_none h]

theorem bindings_of_size_le (h : s.size ≤ i) : s.bindings i = [] := by
  rw [Store.bindings, Array.getElem?_eq_none h]

/-- Stores that agree wherever one can get to are coupled there. -/
theorem AgreesFrom.coupled {roots : List ScopeId} (h : AgreesFrom roots s₁ s₂) :
    Coupled (s₁.Visible roots) s₁ s₂ where
  size := h.size
  parent? := h.parent?
  bindings i hi := by
    rcases hi with hi | hi
    · exact h.bindings i hi
    · rw [bindings_of_size_le hi, bindings_of_size_le (h.size ▸ hi)]
  parent_mem i p hi hp := by
    rcases hi with hi | hi
    · exact .inl (.parent hi hp)
    · rw [parent?_of_size_le hi] at hp
      cases hp
  home_mem i hi f hf := by
    rcases hi with hi | hi
    · obtain ⟨name, v, hv, hf⟩ := Bindings.mem_closures.mp hf
      exact .inl (.captured hi hv hf)
    · rw [bindings_of_size_le hi] at hf
      cases hf
  new_mem _ hi := .inr hi

end Store

end Kestrel
