import Kestrel.Value.Basic

/-!
# The store of scopes

A scope binds names to values and may have a parent, in which a name is looked for when the scope
itself does not bind it. All scopes live in one store that only grows, so a scope is known by its
number for ever, and a function that holds the number of its scope sees every later change of it.

* `Frame`, `Store` — one scope, and all of them;
* `Store.chain` — a scope, its parent, the parent's parent, and so on;
* `Store.owner?`, `Store.lookup?`, `Store.names` — reading along the chain;
* `Store.define`, `Store.assign`, `Store.push` — writing here, writing where a name is bound already,
  and making a new scope.
-/

namespace Kestrel

/-- Names with their values, in the order in which the names were first bound. -/
abbrev Bindings := List (String × Value)

namespace Bindings

/-- Does some entry bind the name? -/
def binds (bs : Bindings) (name : String) : Bool :=
  bs.any (·.1 = name)

/-- The bindings after `name` was given a value: in its place if it is bound, else at the end. -/
def insert (name : String) (value : Value) : Bindings → Bindings
  | [] => [(name, value)]
  | (key, old) :: bs => if key = name then (key, value) :: bs else (key, old) :: insert name value bs

/-- Bindings from names and values given in a row. -/
def ofList (entries : List (String × Value)) : Bindings :=
  entries.foldl (fun bs entry => insert entry.1 entry.2 bs) []

/-- The names, in order. -/
def names (bs : Bindings) : List String :=
  bs.map (·.1)

/-- A new value is found under its name, and every other name keeps its value. -/
theorem lookup_insert (bs : Bindings) (name key : String) (value : Value) :
    (insert name value bs).lookup key = if key = name then some value else bs.lookup key := by
  induction bs with
  | nil =>
    by_cases h : key = name
    · simp [insert, h]
    · simp [insert, List.lookup_cons, h, beq_eq_false_iff_ne.mpr h]
  | cons b bs ih =>
    obtain ⟨k, old⟩ := b
    by_cases hk : k = name <;> by_cases hkey : key = k
    · simp [insert, hk, hkey]
    · subst hk
      simp [insert, List.lookup_cons, hkey, beq_eq_false_iff_ne.mpr hkey]
    · subst hkey
      simp [insert, hk]
    · simp only [insert, hk, if_false, List.lookup_cons, beq_eq_false_iff_ne.mpr hkey, ih]

theorem binds_iff {bs : Bindings} {name : String} : bs.binds name = true ↔ name ∈ bs.names := by
  simp [binds, names]

/-- A name is bound exactly if it has a value. -/
theorem isSome_lookup (bs : Bindings) (name : String) :
    (bs.lookup name).isSome = bs.binds name := by
  induction bs with
  | nil => rfl
  | cons b bs ih =>
    obtain ⟨k, v⟩ := b
    by_cases h : name = k
    · simp [binds, h]
    · have hk : ¬k = name := fun e => h e.symm
      simp only [List.lookup_cons, beq_eq_false_iff_ne.mpr h, ih]
      simp [binds, hk]

/-- A new name comes last, and a known one keeps its place. -/
theorem names_insert (bs : Bindings) (name : String) (value : Value) :
    (insert name value bs).names = if name ∈ bs.names then bs.names else bs.names ++ [name] := by
  induction bs with
  | nil => simp [insert, names]
  | cons b bs ih =>
    obtain ⟨k, old⟩ := b
    by_cases hk : k = name
    · simp [insert, names, hk]
    · have hn : ¬name = k := fun e => hk e.symm
      by_cases hm : name ∈ Bindings.names bs <;> simp_all [insert, names]

theorem binds_insert (bs : Bindings) (name key : String) (value : Value) :
    (insert name value bs).binds key = (decide (key = name) || bs.binds key) := by
  rw [← isSome_lookup, lookup_insert, ← isSome_lookup]
  by_cases h : key = name <;> simp [h]

end Bindings

/-- One scope. -/
structure Frame where
  /-- the scope around it -/
  parent : Option ScopeId
  /-- what it binds -/
  bindings : Bindings
  deriving Inhabited

/-- All scopes, by number. -/
structure Store where
  /-- the scopes, the oldest one first -/
  frames : Array Frame
  deriving Inhabited

namespace Store

/-- No scope at all. -/
def empty : Store := ⟨#[]⟩

/-- The number of scopes. -/
def size (s : Store) : Nat := s.frames.size

/-- What the scope `i` binds; nothing if there is no such scope. -/
def bindings (s : Store) (i : ScopeId) : Bindings :=
  match s.frames[i]? with
  | some frame => frame.bindings
  | none => []

/-- The parent of the scope `i`. -/
def parent? (s : Store) (i : ScopeId) : Option ScopeId :=
  match s.frames[i]? with
  | some frame => frame.parent
  | none => none

/-- The scope `i` and the scopes around it, from the inside out. A parent is older than its child, so
the chain ends. -/
def chain (s : Store) (i : ScopeId) : List ScopeId :=
  match s.parent? i with
  | some p => if p < i then i :: chain s p else [i]
  | none => [i]
termination_by i

/-- How many scopes lie around the scope `i`. -/
def depth (s : Store) (i : ScopeId) : Nat :=
  (s.chain i).length - 1

/-- The nearest scope on the chain of `i` that binds the name. -/
def owner? (s : Store) (i : ScopeId) (name : String) : Option ScopeId :=
  (s.chain i).find? fun j => (s.bindings j).binds name

/-- The value of a name seen from the scope `i`. -/
def lookup? (s : Store) (i : ScopeId) (name : String) : Option Value :=
  (s.owner? i name).bind fun j => (s.bindings j).lookup name

/-- Is the name bound on the chain of `i`? -/
def contains (s : Store) (i : ScopeId) (name : String) : Bool :=
  (s.owner? i name).isSome

/-- Adds to the names seen so far those of a scope that are not among them. -/
def addNames (seen names : List String) : List String :=
  names.foldl (fun seen name => if seen.contains name then seen else seen ++ [name]) seen

/-- The names seen from the scope `i`, each once: those of the innermost scope first, and those of one
scope in the order in which they were first bound. -/
def names (s : Store) (i : ScopeId) : List String :=
  (s.chain i).foldl (fun seen j => addNames seen (s.bindings j).names) []

/-- Gives the name a value in the scope `i` itself. -/
def define (s : Store) (i : ScopeId) (name : String) (value : Value) : Store :=
  ⟨s.frames.modify i fun frame => { frame with bindings := frame.bindings.insert name value }⟩

/-- Gives the name a value in the nearest scope that binds it already, or in the scope `i` if none
does. -/
def assign (s : Store) (i : ScopeId) (name : String) (value : Value) : Store :=
  s.define ((s.owner? i name).getD i) name value

/-- The store with one more scope. -/
def push (s : Store) (parent : Option ScopeId) (bindings : Bindings) : Store :=
  ⟨s.frames.push ⟨parent, bindings⟩⟩

/-- A store with one scope, which has no parent. -/
def root (bindings : Bindings) : Store :=
  empty.push none bindings

/-! ### What writing changes -/

@[simp] theorem size_define (s : Store) (i : ScopeId) (name : String) (value : Value) :
    (s.define i name value).size = s.size := by
  simp [define, size]

@[simp] theorem parent?_define (s : Store) (i j : ScopeId) (name : String) (value : Value) :
    (s.define i name value).parent? j = s.parent? j := by
  simp only [define, parent?, Array.getElem?_modify]
  by_cases h : i = j
  · subst h
    cases s.frames[i]? <;> simp
  · simp [h]

/-- Only the scope that is written to changes what it binds. -/
theorem bindings_define (s : Store) (i j : ScopeId) (name : String) (value : Value) :
    (s.define i name value).bindings j =
      if j = i ∧ i < s.size then (s.bindings i).insert name value else s.bindings j := by
  simp only [define, bindings, size, Array.getElem?_modify]
  by_cases h : i = j
  · subst h
    by_cases hi : i < s.frames.size <;> simp [hi]
  · have hj : ¬j = i := fun e => h e.symm
    simp [h, hj]

/-- Writing changes no chain. -/
@[simp] theorem chain_define (s : Store) (i j : ScopeId) (name : String) (value : Value) :
    (s.define i name value).chain j = s.chain j := by
  fun_induction chain s j with
  | case1 j p hp hlt ih => rw [chain, parent?_define, hp]; simp [hlt, ih]
  | case2 j p hp hlt => rw [chain, parent?_define, hp]; simp [hlt]
  | case3 j hp => rw [chain, parent?_define, hp]

@[simp] theorem size_push (s : Store) (parent : Option ScopeId) (bs : Bindings) :
    (s.push parent bs).size = s.size + 1 := by
  simp [push, size]

theorem bindings_push (s : Store) (parent : Option ScopeId) (bs : Bindings) (i : ScopeId) :
    (s.push parent bs).bindings i = if i = s.size then bs else s.bindings i := by
  simp only [push, bindings, size, Array.getElem?_push]
  by_cases h : i = s.frames.size <;> simp [h]

theorem parent?_push (s : Store) (parent : Option ScopeId) (bs : Bindings) (i : ScopeId) :
    (s.push parent bs).parent? i = if i = s.size then parent else s.parent? i := by
  simp only [push, parent?, size, Array.getElem?_push]
  by_cases h : i = s.frames.size <;> simp [h]

/-- A new scope changes no chain of an older one. -/
theorem chain_push_of_lt {s : Store} {i : ScopeId} (h : i < s.size) (parent : Option ScopeId)
    (bs : Bindings) : (s.push parent bs).chain i = s.chain i := by
  fun_induction chain s i with
  | case1 j p hp hlt ih =>
    rw [chain, parent?_push, if_neg (Nat.ne_of_lt h), hp]
    simp [hlt, ih (Nat.lt_trans hlt h)]
  | case2 j p hp hlt => rw [chain, parent?_push, if_neg (Nat.ne_of_lt h), hp]; simp [hlt]
  | case3 j hp => rw [chain, parent?_push, if_neg (Nat.ne_of_lt h), hp]

/-! ### One scope -/

theorem chain_root (bs : Bindings) : (root bs).chain 0 = [0] := by
  rw [chain]
  rfl

@[simp] theorem contains_root (bs : Bindings) (name : String) :
    (root bs).contains 0 name = bs.binds name := by
  have hbindings : (root bs).bindings 0 = bs := rfl
  rw [contains, owner?, chain_root, List.find?_singleton, hbindings]
  cases bs.binds name <;> rfl

@[simp] theorem lookup?_root (bs : Bindings) (name : String) :
    (root bs).lookup? 0 name = bs.lookup name := by
  have hbindings : (root bs).bindings 0 = bs := rfl
  have hbinds := bs.isSome_lookup name
  rw [lookup?, owner?, chain_root, List.find?_singleton, hbindings, ← hbinds]
  cases h : bs.lookup name with
  | some v => exact h
  | none => rfl

end Store

end Kestrel
