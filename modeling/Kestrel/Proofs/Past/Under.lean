import Kestrel.Proofs.Past.Shift

/-!
# Scopes on top of older ones

A store can be put on top of scopes that were there before it: these come first, and the numbers of its
own scopes are raised by how many they are. Nothing in the store leads to the older scopes, so whatever
is read or written in it is read or written on top of them just the same.

* `Store.under` — a store on top of older scopes;
* `Store.chain_under`, `Store.lookup?_under` and others — reading on top of older scopes;
* `Store.assign_under`, `Store.push_under` and others — writing on top of older scopes.
-/

namespace Kestrel

/-- A scope with its parent and the scopes in its values raised. -/
def Frame.shift (k : Nat) (f : Frame) : Frame :=
  ⟨f.parent.map (· + k), f.bindings.shift k⟩

namespace Store

/-- The store on top of older scopes. -/
def under (old s : Store) : Store :=
  ⟨old.frames ++ s.frames.map (Frame.shift old.size)⟩

variable (old s : Store)

@[simp] theorem size_under : (old.under s).size = s.size + old.size := by
  simp [under, size, Nat.add_comm]

theorem getElem?_under (i : ScopeId) :
    (old.under s).frames[i + old.size]? = s.frames[i]?.map (Frame.shift old.size) := by
  rw [under, size, Array.getElem?_append_right (Nat.le_add_left _ _), Nat.add_sub_cancel,
    Array.getElem?_map]

theorem getElem?_under_of_lt {i : ScopeId} (h : i < old.size) :
    (old.under s).frames[i]? = old.frames[i]? := by
  rw [under, Array.getElem?_append_left h]

/-- Older scopes with nothing on top of them. -/
theorem under_empty : old.under empty = old := by
  simp [under, empty]

/-! ### Reading -/

theorem bindings_under (i : ScopeId) :
    (old.under s).bindings (i + old.size) = (s.bindings i).shift old.size := by
  rw [bindings, bindings, getElem?_under]
  cases s.frames[i]? <;> rfl

theorem parent?_under (i : ScopeId) :
    (old.under s).parent? (i + old.size) = (s.parent? i).map (· + old.size) := by
  rw [parent?, parent?, getElem?_under]
  cases s.frames[i]? <;> rfl

theorem chain_under (i : ScopeId) :
    (old.under s).chain (i + old.size) = (s.chain i).map (· + old.size) := by
  fun_induction chain s i with
  | case1 i p hp hlt ih => rw [chain, parent?_under, hp]; simp [hlt, ih]
  | case2 i p hp hlt => rw [chain, parent?_under, hp]; simp [hlt]
  | case3 i hp => rw [chain, parent?_under, hp]; simp

theorem depth_under (i : ScopeId) : (old.under s).depth (i + old.size) = s.depth i := by
  rw [depth, depth, chain_under, List.length_map]

theorem owner?_under (i : ScopeId) (name : String) :
    (old.under s).owner? (i + old.size) name = (s.owner? i name).map (· + old.size) := by
  rw [owner?, owner?, chain_under, List.find?_map]
  congr 2
  funext j
  rw [Function.comp, bindings_under, Bindings.binds_shift]

theorem contains_under (i : ScopeId) (name : String) :
    (old.under s).contains (i + old.size) name = s.contains i name := by
  rw [contains, contains, owner?_under, Option.isSome_map]

theorem lookup?_under (i : ScopeId) (name : String) :
    (old.under s).lookup? (i + old.size) name = (s.lookup? i name).map (Value.shift old.size) := by
  rw [lookup?, lookup?, owner?_under]
  cases s.owner? i name with
  | none => rfl
  | some j => exact (congrArg _ (bindings_under old s j)).trans (Bindings.lookup_shift _ _ _)

/-! ### Writing -/

theorem define_under (i : ScopeId) (name : String) (v : Value) :
    (old.under s).define (i + old.size) name (v.shift old.size) = old.under (s.define i name v) := by
  have hframes : ((old.under s).define (i + old.size) name (v.shift old.size)).frames =
      (old.under (s.define i name v)).frames := by
    refine Array.ext_getElem? fun j => ?_
    rw [define, Array.getElem?_modify]
    by_cases hj : j < old.size
    · rw [if_neg (by omega), getElem?_under_of_lt old _ hj, getElem?_under_of_lt old _ hj]
    · obtain ⟨j, rfl⟩ := Nat.exists_eq_add_of_le' (Nat.le_of_not_lt hj)
      rw [getElem?_under, getElem?_under, define, Array.getElem?_modify]
      by_cases hij : i = j
      · subst hij
        cases s.frames[i]? with
        | none => simp
        | some f => simp [Frame.shift, Bindings.insert_shift]
      · simp [hij]
  exact congrArg Store.mk hframes

theorem assign_under (i : ScopeId) (name : String) (v : Value) :
    (old.under s).assign (i + old.size) name (v.shift old.size) = old.under (s.assign i name v) := by
  rw [assign, assign, owner?_under, ← define_under]
  congr 1
  cases s.owner? i name <;> rfl

theorem push_under (parent : Option ScopeId) (bs : Bindings) :
    (old.under s).push (parent.map (· + old.size)) (bs.shift old.size) =
      old.under (s.push parent bs) := by
  rw [push, push, under, under, Array.map_push, Array.append_push]
  rfl

end Store

end Kestrel
