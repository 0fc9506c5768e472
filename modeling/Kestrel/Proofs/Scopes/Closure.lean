import Kestrel.Eval.Node

/-!
# The functions in a value

A function holds the number of the scope it was declared in, so a value leads to scopes, and a scope
leads on through the values it binds. This file says which functions a value holds and follows them
through what evaluation does with values: a name is looked up, a scope is written to, a new scope is
filled with arguments. No operator and no built-in function gives a function back.

* `Closure`, `Value.closures` — a function value, and those in a value at any depth;
* `Store.Sees` — some scope on the chain of a scope binds a value;
* `Bindings.closures` — the functions in what a scope binds.
-/

namespace Kestrel

/-- What a function value holds. -/
structure Closure where
  /-- the names of its parameters -/
  params : List String
  /-- its body -/
  body : Node
  /-- the scope it was declared in -/
  home : ScopeId
  /-- its name -/
  name : String

namespace Value

mutual

/-- The functions in a value, also inside lists and records. -/
def closures : Value → List Closure
  | int _ | str _ | bool _ | none => []
  | list vs => closuresOfAll vs
  | record es => closuresOfEntries es
  | function params body home name => [⟨params, body, home, name⟩]

/-- The functions in several values. -/
def closuresOfAll : List Value → List Closure
  | [] => []
  | v :: vs => closures v ++ closuresOfAll vs

/-- The functions in the values of several names. -/
def closuresOfEntries : List (String × Value) → List Closure
  | [] => []
  | (_, v) :: es => closures v ++ closuresOfEntries es

end

theorem mem_closuresOfAll {vs : List Value} {c : Closure} :
    c ∈ closuresOfAll vs ↔ ∃ v ∈ vs, c ∈ v.closures := by
  induction vs with
  | nil => simp [closuresOfAll]
  | cons v vs ih => simp [closuresOfAll, ih]

end Value

/-- The functions in what a scope binds. -/
abbrev Bindings.closures (bs : Bindings) : List Closure := Value.closuresOfEntries bs

namespace Bindings

theorem mem_closures {bs : Bindings} {c : Closure} :
    c ∈ bs.closures ↔ ∃ name v, (name, v) ∈ bs ∧ c ∈ v.closures := by
  induction bs with
  | nil => simp [closures, Value.closuresOfEntries]
  | cons b bs ih =>
    obtain ⟨key, v⟩ := b
    rw [closures, Value.closuresOfEntries, List.mem_append, ih]
    constructor
    · rintro (h | ⟨name, w, hw, h⟩)
      · exact ⟨key, v, List.mem_cons_self, h⟩
      · exact ⟨name, w, List.mem_cons_of_mem _ hw, h⟩
    · rintro ⟨name, w, hw, h⟩
      rcases List.mem_cons.mp hw with heq | hw
      · cases heq
        exact .inl h
      · exact .inr ⟨name, w, hw, h⟩

/-- What is found under a name is bound. -/
theorem mem_of_lookup {bs : Bindings} {name : String} {v : Value} (h : bs.lookup name = some v) :
    (name, v) ∈ bs := by
  induction bs with
  | nil => simp at h
  | cons b bs ih =>
    obtain ⟨key, w⟩ := b
    rw [List.lookup_cons] at h
    by_cases hkey : name = key
    · subst hkey
      simp only [beq_self_eq_true, Option.some.injEq] at h
      rw [h]
      exact List.mem_cons_self
    · rw [beq_eq_false_iff_ne.mpr hkey] at h
      exact List.mem_cons_of_mem _ (ih h)

theorem mem_closures_of_lookup {bs : Bindings} {name : String} {v : Value} {c : Closure}
    (h : bs.lookup name = some v) (hc : c ∈ v.closures) : c ∈ bs.closures :=
  mem_closures.mpr ⟨name, v, mem_of_lookup h, hc⟩

/-- Writing a value brings in no functions but those in the value. -/
theorem mem_closures_insert {bs : Bindings} {name : String} {v : Value} {c : Closure}
    (h : c ∈ (insert name v bs).closures) : c ∈ v.closures ∨ c ∈ bs.closures := by
  induction bs with
  | nil => simpa [insert, closures, Value.closuresOfEntries] using h
  | cons b bs ih =>
    obtain ⟨key, w⟩ := b
    rw [insert] at h
    split at h
    · rw [closures, Value.closuresOfEntries, List.mem_append] at h
      rw [closures, Value.closuresOfEntries, List.mem_append]
      rcases h with h | h
      · exact .inl h
      · exact .inr (.inr h)
    · rw [closures, Value.closuresOfEntries, List.mem_append] at h
      rw [closures, Value.closuresOfEntries, List.mem_append]
      rcases h with h | h
      · exact .inr (.inl h)
      · exact (ih h).imp_right .inr

private theorem mem_closures_foldl_insert {es : List (String × Value)} {bs : Bindings} {c : Closure}
    (h : c ∈ (es.foldl (fun bs e => insert e.1 e.2 bs) bs).closures) :
    c ∈ bs.closures ∨ ∃ e ∈ es, c ∈ e.2.closures := by
  induction es generalizing bs with
  | nil => exact .inl h
  | cons e es ih =>
    rcases ih h with h | ⟨e', he', h⟩
    · rcases mem_closures_insert h with h | h
      · exact .inr ⟨e, List.mem_cons_self, h⟩
      · exact .inl h
    · exact .inr ⟨e', List.mem_cons_of_mem _ he', h⟩

/-- Parameters bound to arguments hold no functions but those in the arguments. -/
theorem mem_closures_ofList_zip {params : List String} {args : List Value} {c : Closure}
    (h : c ∈ (ofList (params.zip args)).closures) : c ∈ Value.closuresOfAll args := by
  rcases mem_closures_foldl_insert h with h | ⟨⟨name, v⟩, he, h⟩
  · simp [closures, Value.closuresOfEntries] at h
  · exact Value.mem_closuresOfAll.mpr ⟨v, (List.of_mem_zip he).2, h⟩

private theorem binds_foldl_insert (es : List (String × Value)) (bs : Bindings) (name : String) :
    (es.foldl (fun bs e => insert e.1 e.2 bs) bs).binds name =
      (bs.binds name || decide (name ∈ es.map (·.1))) := by
  induction es generalizing bs with
  | nil => simp
  | cons e es ih =>
    rw [List.foldl_cons, ih, binds_insert, List.map_cons]
    by_cases h : name = e.1 <;> simp only [h, List.mem_cons, decide_true, decide_false, true_or,
      false_or, Bool.true_or, Bool.false_or, Bool.or_true]

/-- Parameters bound to as many arguments are all bound. -/
theorem binds_ofList_zip {params : List String} {args : List Value}
    (h : args.length = params.length) {name : String} (hname : name ∈ params) :
    (ofList (params.zip args)).binds name = true := by
  rw [ofList, binds_foldl_insert]
  have hmap : (params.zip args).map (·.1) = params := List.map_fst_zip (by omega)
  simp [hmap, hname]

end Bindings

/-! ### Along a chain -/

namespace Store

variable {s : Store} {i j : ScopeId} {name : String} {v : Value}

/-- The scope that binds a name lies on the chain. -/
theorem mem_chain_of_owner? (h : s.owner? i name = some j) : j ∈ s.chain i :=
  List.mem_of_find?_eq_some h

/-- A value found from a scope is bound on its chain. -/
theorem exists_of_lookup? (h : s.lookup? i name = some v) :
    ∃ j ∈ s.chain i, (s.bindings j).lookup name = some v := by
  rw [lookup?, Option.bind_eq_some_iff] at h
  obtain ⟨j, hj, h⟩ := h
  exact ⟨j, mem_chain_of_owner? hj, h⟩

theorem self_mem_chain (s : Store) (i : ScopeId) : i ∈ s.chain i := by
  rw [chain]
  split
  · split <;> simp
  · simp

/-- Where a name is given a value. -/
def target (s : Store) (i : ScopeId) (name : String) : ScopeId := (s.owner? i name).getD i

/-- A name is given a value on the chain. -/
theorem target_mem_chain (s : Store) (i : ScopeId) (name : String) :
    s.target i name ∈ s.chain i := by
  rw [target]
  cases h : s.owner? i name with
  | none => exact self_mem_chain s i
  | some j => exact mem_chain_of_owner? h

theorem assign_eq (s : Store) (i : ScopeId) (name : String) (v : Value) :
    s.assign i name v = s.define (s.target i name) name v := rfl

/-- A property that passes from a scope to its parent holds all along a chain. -/
theorem forall_mem_chain {P : ScopeId → Prop} (hP : ∀ i p, P i → s.parent? i = some p → P p)
    (h : P i) : ∀ j ∈ s.chain i, P j := by
  fun_induction chain s i with
  | case1 i p hp hlt ih =>
    intro j hj
    rcases List.mem_cons.mp hj with rfl | hj
    · exact h
    · exact ih (hP _ _ h hp) j hj
  | case2 i p hp hlt => simpa using h
  | case3 i hp => simpa using h

/-- Writing to a scope brings in no functions but those in the value. -/
theorem mem_closures_define {c : Closure} (h : c ∈ ((s.define i name v).bindings j).closures) :
    c ∈ (s.bindings j).closures ∨ j = i ∧ c ∈ v.closures := by
  rw [bindings_define] at h
  split at h
  case isTrue hj =>
    rcases Bindings.mem_closures_insert h with h | h
    · exact .inr ⟨hj.1, h⟩
    · exact .inl (hj.1 ▸ h)
  case isFalse => exact .inl h

end Store

/-! ### Values that hold no functions -/

namespace Value

theorem closures_joinTexts {x y v : Value} (h : joinTexts x y = .ok v) : v.closures = [] := by
  rw [joinTexts] at h
  split at h <;> cases h
  rfl

theorem closures_repeatText {s : String} {n : Int} {v : Value} (h : repeatText s n = .ok v) :
    v.closures = [] := by
  rw [repeatText] at h
  split at h
  · cases h
  · split at h <;> cases h <;> rfl

theorem closures_split {x y v : Value} (h : split x y = .ok v) : v.closures = [] := by
  rw [split.eq_def] at h
  split at h
  · cases h
    refine List.eq_nil_iff_forall_not_mem.mpr fun c hc => ?_
    rw [closures, mem_closuresOfAll] at hc
    obtain ⟨w, hw, hc⟩ := hc
    obtain ⟨piece, _, rfl⟩ := List.mem_map.mp hw
    simp [closures] at hc
  · cases h

end Value

theorem BinaryOp.closures_apply {op : BinaryOp} {x y v : Value} (h : op.apply x y = .ok v) :
    v.closures = [] := by
  rw [BinaryOp.apply.eq_def] at h
  split at h
  all_goals first
    | exact Value.closures_joinTexts h
    | exact Value.closures_repeatText h
    | (cases h <;> rfl)
    | (split at h <;> cases h; rfl)

theorem UnaryOp.closures_apply {op : UnaryOp} {x v : Value} (h : op.apply x = .ok v) :
    v.closures = [] := by
  cases op <;> cases x <;> cases h <;> rfl

end Kestrel
