import Kestrel.Proofs.Scopes.Recorded
import Mathlib.Logic.Relation

/-!
# What a record says about the scopes

Not every list of events can be the record of a session: a function must be declared before it is
called, and it must be declared before a value can hold it. In an orderly history each event was
possible when it happened. That is a condition on single events, and it is enough to know how the
scopes hang together after any number of them: a scope other than the global one was made by one call,
lies inside the scope in which the called function was declared, and is younger than it.

* `Closure.declaration` — the event that brings a function into being;
* `Event.Allowed`, `Orderly` — what can happen after a history, and histories made of such events;
* `Founded` — a function whose scope exists and which was declared there by a program;
* `WellScoped` — how the scopes hang together after a history;
* `Orderly.wellScoped` — an orderly history leaves the scopes like that.
-/

namespace Kestrel

/-- The event that brings a function into being. -/
def Closure.declaration (f : Closure) : Event := .declared f.home f.name f.params f.body

/-- The node that declares a function. -/
def Closure.node (f : Closure) : Node := .declare f.name f.params f.body

/-- The scope that an event makes. -/
def Event.made? : Event → Option ScopeId
  | called scope _ _ => some scope
  | assigned _ _ _ | declared _ _ _ _ | returned _ => none

/-- Every function in the value was declared before. -/
def Known (history : List Event) (v : Value) : Prop :=
  ∀ f ∈ v.closures, f.declaration ∈ history

/-- What can happen after a history, if `ran` tells the declarations in the programs that were run. -/
inductive Event.Allowed (ran : Node → Prop) (history : List Event) : Event → Prop where
  /-- a value that is known is given to a name -/
  | assigned {scope : ScopeId} {name : String} {v : Value} :
    scope < (replay history).size → Known history v → Allowed ran history (.assigned scope name v)
  /-- a declaration of some program is done -/
  | declared {scope : ScopeId} {name : String} {params : List String} {body : Node} :
    scope < (replay history).size → ran (.declare name params body) →
    Allowed ran history (.declared scope name params body)
  /-- a function that was declared is called with as many known values as it has parameters -/
  | called {f : Closure} {args : List Value} :
    f.declaration ∈ history → args.length = f.params.length → (∀ v ∈ args, Known history v) →
    Allowed ran history (.called (replay history).size f args)
  /-- a call gives a value that is known -/
  | returned {v : Value} : Known history v → Allowed ran history (.returned v)

/-- Each event of the history was possible when it happened. -/
inductive Orderly (ran : Node → Prop) : List Event → Prop where
  /-- nothing has happened -/
  | nil : Orderly ran []
  /-- one more event -/
  | snoc {history : List Event} {e : Event} : Orderly ran history → e.Allowed ran history →
    Orderly ran (history ++ [e])

variable {ran : Node → Prop} {history done : List Event}

theorem Known.mono {v : Value} (h : Known done v) (hdone : done <+: history) : Known history v :=
  fun f hf => hdone.subset (h f hf)

theorem Orderly.of_prefix (h : Orderly ran history) (hdone : done <+: history) :
    Orderly ran done := by
  induction h with
  | nil => rw [List.prefix_nil.mp hdone]; exact .nil
  | snoc h he ih =>
    rcases List.prefix_concat_iff.mp hdone with rfl | hdone
    · exact h.snoc he
    · exact ih hdone

theorem Event.Allowed.imp {ran' : Node → Prop} (himp : ∀ d, ran d → ran' d) {e : Event}
    (h : e.Allowed ran history) : e.Allowed ran' history := by
  cases h with
  | assigned hlt hv => exact .assigned hlt hv
  | declared hlt hran => exact .declared hlt (himp _ hran)
  | called hf hargs hknown => exact .called hf hargs hknown
  | returned hv => exact .returned hv

/-- More programs allow no less. -/
theorem Orderly.imp {ran' : Node → Prop} (himp : ∀ d, ran d → ran' d) (h : Orderly ran history) :
    Orderly ran' history := by
  induction h with
  | nil => exact .nil
  | snoc _ ha ih => exact ih.snoc (ha.imp himp)

/-! ### The number of scopes -/

theorem Event.size_le_size_apply (s : Store) (e : Event) : s.size ≤ (e.apply s).size := by
  cases e <;> simp [Event.apply, Store.assign_eq]

/-- Scopes do not go away. -/
theorem size_replay_le (h : done <+: history) : (replay done).size ≤ (replay history).size := by
  obtain ⟨events, rfl⟩ := h
  rw [replay, replay, List.foldl_append]
  generalize List.foldl Event.apply Session.freshStore done = s
  induction events generalizing s with
  | nil => exact Nat.le_refl _
  | cons e events ih => exact Nat.le_trans (Event.size_le_size_apply s e) (ih (e.apply s))

theorem size_replay_pos (history : List Event) : Session.globalScope < (replay history).size :=
  Nat.lt_of_lt_of_le (show 0 < (replay []).size by decide) (size_replay_le List.nil_prefix)

theorem Orderly.made_lt (h : Orderly ran history) {e : Event} {i : ScopeId} (he : e ∈ history)
    (hi : e.made? = some i) : i < (replay history).size := by
  induction h with
  | nil => cases he
  | snoc h ha ih =>
    rw [replay_append_singleton]
    rcases List.mem_append.mp he with he | he
    · exact Nat.lt_of_lt_of_le (ih he) (Event.size_le_size_apply _ _)
    · cases List.mem_singleton.mp he
      cases ha <;> cases hi
      simp [Event.apply]

/-! ### Functions -/

/-- The function was declared in its scope, which exists, by a declaration of a program that was
run. -/
structure Founded (ran : Node → Prop) (history : List Event) (f : Closure) : Prop where
  /-- the scope exists -/
  home_lt : f.home < (replay history).size
  /-- the function was declared there -/
  declared : f.declaration ∈ history
  /-- the declaration belongs to a program -/
  ran : ran f.node

theorem Orderly.founded (h : Orderly ran history) {f : Closure} (hf : f.declaration ∈ history) :
    Founded ran history f := by
  induction h with
  | nil => cases hf
  | @snoc history e h ha ih =>
    rcases List.mem_append.mp hf with hf | hf
    · obtain ⟨hlt, -, hran⟩ := ih hf
      refine ⟨?_, List.mem_append_left _ hf, hran⟩
      exact Nat.lt_of_lt_of_le hlt (size_replay_le (List.prefix_append _ _))
    · cases List.mem_singleton.mp hf
      cases ha with
      | declared hlt hran =>
        refine ⟨?_, List.mem_append_right _ List.mem_cons_self, hran⟩
        exact Nat.lt_of_lt_of_le hlt (size_replay_le (List.prefix_append _ _))

/-- What a scope binds is known. -/
theorem Orderly.known (h : Orderly ran history) {i : ScopeId} {f : Closure}
    (hf : f ∈ ((replay history).bindings i).closures) : f.declaration ∈ history := by
  induction h with
  | nil =>
    change f ∈ ((Store.root []).bindings i).closures at hf
    rw [Store.root, Store.bindings_push] at hf
    split at hf <;> cases hf
  | @snoc history e h ha ih =>
    rw [replay_append_singleton] at hf
    cases ha with
    | assigned _ hv =>
      rw [Event.apply, Store.assign_eq] at hf
      rcases Store.mem_closures_define hf with hf | ⟨-, hf⟩
      · exact List.mem_append_left _ (ih hf)
      · exact List.mem_append_left _ (hv f hf)
    | declared _ _ =>
      rw [Event.apply] at hf
      rcases Store.mem_closures_define hf with hf | ⟨-, hf⟩
      · exact List.mem_append_left _ (ih hf)
      · rw [Value.closures, List.mem_singleton] at hf
        rw [hf]
        exact List.mem_append_right _ List.mem_cons_self
    | called _ _ hargs =>
      rw [Event.apply, Store.bindings_push] at hf
      split at hf
      · obtain ⟨v, hv, hf⟩ := Value.mem_closuresOfAll.mp (Bindings.mem_closures_ofList_zip hf)
        exact List.mem_append_left _ (hargs v hv f hf)
      · exact List.mem_append_left _ (ih hf)
    | returned _ => exact List.mem_append_left _ (ih hf)

/-- What a call has given is known. -/
theorem Orderly.known_returned (h : Orderly ran history) {v : Value}
    (hv : .returned v ∈ history) : Known history v := by
  induction h with
  | nil => cases hv
  | snoc h ha ih =>
    rcases List.mem_append.mp hv with hv | hv
    · exact (ih hv).mono (List.prefix_append _ _)
    · cases List.mem_singleton.mp hv
      cases ha with
      | returned hv => exact hv.mono (List.prefix_append _ _)

/-! ### Scopes -/

/-- The scope was made by one event of the history, the call of a function. -/
structure MadeByCall (history : List Event) (i : ScopeId) (before : List Event) (f : Closure)
    (args : List Value) (after : List Event) : Prop where
  /-- the call -/
  eq : history = before ++ .called i f args :: after
  /-- the scope is the next one that there was not yet -/
  size : (replay before).size = i
  /-- no other event made the scope -/
  once : ∀ e ∈ before ++ after, e.made? ≠ some i
  /-- the function had been declared -/
  declared : f.declaration ∈ before
  /-- the parent is the scope in which it was declared -/
  parent : (replay history).parent? i = some f.home
  /-- each parameter of the function is bound -/
  binds : ∀ name ∈ f.params, ((replay history).bindings i).binds name = true

/-- An event leaves the parents of the scopes as they are. -/
theorem Event.parent?_apply {s : Store} {i : ScopeId} (hi : i < s.size) (e : Event) :
    (e.apply s).parent? i = s.parent? i := by
  cases e with
  | called => rw [Event.apply, Store.parent?_push, if_neg (Nat.ne_of_lt hi)]
  | _ => simp [Event.apply, Store.assign_eq]

theorem Store.binds_define {s : Store} {i j : ScopeId} {name key : String} {v : Value}
    (h : (s.bindings i).binds key = true) : ((s.define j name v).bindings i).binds key = true := by
  rw [Store.bindings_define]
  split
  case isTrue hi => rw [Bindings.binds_insert, ← hi.1, h, Bool.or_true]
  case isFalse => exact h

/-- An event does not unbind a name. -/
theorem Event.binds_apply {s : Store} {i : ScopeId} (hi : i < s.size) (e : Event) {name : String}
    (h : (s.bindings i).binds name = true) : ((e.apply s).bindings i).binds name = true := by
  cases e with
  | assigned => exact Store.binds_define h
  | declared => exact Store.binds_define h
  | called => rwa [Event.apply, Store.bindings_push, if_neg (Nat.ne_of_lt hi)]
  | returned => exact h

/-- Every scope but the global one was made by a call. -/
theorem Orderly.exists_madeByCall (h : Orderly ran history) {i : ScopeId}
    (hi : i < (replay history).size) (hroot : i ≠ Session.globalScope) :
    ∃ before f args after, MadeByCall history i before f args after := by
  induction h with
  | nil =>
    have hsize : (replay []).size = 1 := rfl
    exact absurd (Nat.lt_one_iff.mp (hsize ▸ hi)) hroot
  | @snoc history e h ha ih =>
    by_cases hold : i < (replay history).size
    · -- the event leaves the scope's parent and its names, and makes another scope if any
      obtain ⟨before, f, args, after, hmade⟩ := ih hold
      refine ⟨before, f, args, after ++ [e], ?_, hmade.size, ?_, hmade.declared, ?_, ?_⟩
      · rw [hmade.eq, List.append_assoc, List.cons_append]
      · intro e' he'
        rw [← List.append_assoc] at he'
        rcases List.mem_append.mp he' with he' | he'
        · exact hmade.once e' he'
        · rw [List.mem_singleton.mp he']
          cases ha with
          | called => exact fun heq => Nat.ne_of_lt hold (Option.some.inj heq).symm
          | _ => exact nofun
      · rw [replay_append_singleton, Event.parent?_apply hold, hmade.parent]
      · intro name hname
        rw [replay_append_singleton]
        exact Event.binds_apply hold e (hmade.binds name hname)
    · -- only a call makes a scope, so the event is the one that is looked for
      rw [replay_append_singleton] at hi
      cases ha with
      | @called f args hf hargs _ =>
        rw [Event.apply, Store.size_push] at hi
        obtain rfl : i = (replay history).size :=
          Nat.le_antisymm (Nat.lt_succ_iff.mp hi) (Nat.not_lt.mp hold)
        refine ⟨history, f, args, [], rfl, rfl, ?_, hf, ?_, ?_⟩
        · intro e he heq
          rw [List.append_nil] at he
          exact Nat.lt_irrefl _ (h.made_lt he heq)
        · rw [replay_append_singleton, Event.apply, Store.parent?_push, if_pos rfl]
        · intro name hname
          rw [replay_append_singleton, Event.apply, Store.bindings_push, if_pos rfl]
          exact Bindings.binds_ofList_zip hargs hname
      | _ => simp [Event.apply, Store.assign_eq, hold] at hi

/-- How the scopes hang together after a history. -/
structure WellScoped (ran : Node → Prop) (history : List Event) : Prop where
  /-- the global scope has no parent -/
  global : (replay history).parent? Session.globalScope = none
  /-- parents are older than their children -/
  parent_lt : ∀ i p, (replay history).parent? i = some p → p < i
  /-- from every scope the parents lead to the global scope -/
  rooted : ∀ i < (replay history).size,
    Relation.ReflTransGen (fun i p => (replay history).parent? i = some p) i Session.globalScope
  /-- every function that is bound anywhere was declared in its scope by a program -/
  bound : ∀ i, ∀ f ∈ ((replay history).bindings i).closures, Founded ran history f
  /-- so was every function that a call has given -/
  returned : ∀ v, .returned v ∈ history → ∀ f ∈ v.closures, Founded ran history f
  /-- every other scope was made by one call -/
  made : ∀ i < (replay history).size, i ≠ Session.globalScope →
    ∃ before f args after, MadeByCall history i before f args after

theorem Orderly.parent?_global (h : Orderly ran history) :
    (replay history).parent? Session.globalScope = none := by
  induction h with
  | nil => rfl
  | snoc _ _ ih =>
    rw [replay_append_singleton, Event.parent?_apply (size_replay_pos _), ih]

/-- A scope that does not exist has no parent. -/
theorem Store.lt_of_parent? {s : Store} {i p : ScopeId} (h : s.parent? i = some p) : i < s.size := by
  rw [Store.parent?] at h
  split at h
  case h_1 frame hframe => exact (Array.getElem?_eq_some_iff.mp hframe).1
  case h_2 => cases h

theorem MadeByCall.home_lt (h : Orderly ran history) {i : ScopeId} {before after : List Event}
    {f : Closure} {args : List Value} (hmade : MadeByCall history i before f args after) :
    f.home < i := by
  have hbefore : Orderly ran before := h.of_prefix (hmade.eq ▸ List.prefix_append _ _)
  rw [← hmade.size]
  exact (hbefore.founded hmade.declared).home_lt

theorem Orderly.parent_lt (h : Orderly ran history) {i p : ScopeId}
    (hp : (replay history).parent? i = some p) : p < i := by
  have hroot : i ≠ Session.globalScope := by
    rintro rfl
    rw [h.parent?_global] at hp
    cases hp
  obtain ⟨before, f, args, after, hmade⟩ := h.exists_madeByCall (Store.lt_of_parent? hp) hroot
  rw [hmade.parent] at hp
  cases hp
  exact hmade.home_lt h

/-- The parents lead to the global scope: they grow older at each step, and only the global scope has
none. -/
theorem Orderly.rooted (h : Orderly ran history) (i : ScopeId) (hi : i < (replay history).size) :
    Relation.ReflTransGen (fun i p => (replay history).parent? i = some p) i
      Session.globalScope := by
  induction i using Nat.strongRecOn with
  | ind i ih =>
    by_cases hroot : i = Session.globalScope
    · rw [hroot]
    · obtain ⟨before, f, args, after, hmade⟩ := h.exists_madeByCall hi hroot
      have hlt : f.home < i := hmade.home_lt h
      exact .head hmade.parent (ih f.home hlt (Nat.lt_trans hlt hi))

/-- After an orderly history the scopes hang together as they should. -/
theorem Orderly.wellScoped (h : Orderly ran history) : WellScoped ran history where
  global := h.parent?_global
  parent_lt _ _ := h.parent_lt
  rooted := h.rooted
  bound _ _ hf := h.founded (h.known hf)
  returned _ hv f hf := h.founded (h.known_returned hv f hf)
  made _ := h.exists_madeByCall

end Kestrel
