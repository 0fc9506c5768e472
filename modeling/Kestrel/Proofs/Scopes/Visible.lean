import Mathlib.Data.List.Basic
import Mathlib.Data.List.Induction
import Kestrel.Proofs.Scopes.Writing

/-!
# The names that can be seen

From a scope one sees the names that it binds and those bound around it, and a name that is bound more than
once is seen where it is bound nearest. A list of these names is made by going outward and leaving out what
has been listed already. So each name stands in the list once, in the place of the scope in which a look-up
finds it, and the names of one scope stand in the order in which they were created there.

* `Earlier` — what comes first in a row in which something may come more than once;
* `exists_addNames_eq` — what a scope adds to a list of names;
* `Ahead`, `pairwise_ahead` — which of two names is listed first, and that the list follows that;
* `Recounts` — a history of writes that tells in which order names were created;
* `Nest.written`, `ScopeStep.performAll_recounts` — what a course of new scopes and writes writes to a scope,
  and that this is the history of the names in it;
* `Store.names_listed` — the list of names at any time.
-/

namespace Kestrel

/-! ### First places in a row -/

section Earlier

variable {α : Type} [DecidableEq α] {row : List α} {a b c : α}

/-- The first place of `a` in a row is before the first place of `b`. -/
def Earlier (row : List α) (a b : α) : Prop := a ∈ row ∧ b ∈ row ∧ row.idxOf a < row.idxOf b

theorem Earlier.ne (h : Earlier row a b) : a ≠ b := by
  rintro rfl
  exact Nat.lt_irrefl _ h.2.2

/-- What is put behind a row changes no first places in it. -/
theorem Earlier.append (h : Earlier row a b) (more : List α) : Earlier (row ++ more) a b := by
  obtain ⟨ha, hb, hlt⟩ := h
  refine ⟨List.mem_append_left more ha, List.mem_append_left more hb, ?_⟩
  rwa [List.idxOf_append_of_mem ha, List.idxOf_append_of_mem hb]

/-- What is new in a row comes last. -/
theorem earlier_concat (ha : a ∈ row) (hc : c ∉ row) : Earlier (row ++ [c]) a c := by
  refine ⟨List.mem_append_left [c] ha, List.mem_append_right row List.mem_cons_self, ?_⟩
  rw [List.idxOf_append_of_mem ha, List.idxOf_append_of_notMem hc]
  exact Nat.lt_add_right _ (List.idxOf_lt_length_iff.mpr ha)

theorem Earlier.of_concat (h : Earlier (row ++ [c]) a b) (hc : c ∉ row) :
    Earlier row a b ∨ a ∈ row ∧ b = c := by
  obtain ⟨ha, hb, hlt⟩ := h
  have hlast : (row ++ [c]).idxOf c = row.length := by
    rw [List.idxOf_append_of_notMem hc, List.idxOf_cons_self, Nat.add_zero]
  have hplace {d : α} (hd : d ∈ row ++ [c]) : d ∈ row ∨ d = c := by simpa using hd
  obtain harow | rfl := hplace ha
  · obtain hbrow | hbc := hplace hb
    · rw [List.idxOf_append_of_mem harow, List.idxOf_append_of_mem hbrow] at hlt
      exact .inl ⟨harow, hbrow, hlt⟩
    · exact .inr ⟨harow, hbc⟩
  · have hle := List.idxOf_lt_length_iff.mpr hb
    rw [List.length_append, List.length_singleton] at hle
    omega

end Earlier

namespace Store

variable {s : Store} {js : List ScopeId} {name : String}

/-! ### The names of one scope -/

theorem addNames_concat (seen names : List String) (name : String) :
    addNames seen (names ++ [name]) =
      if name ∈ addNames seen names then addNames seen names else addNames seen names ++ [name] := by
  rw [addNames, List.foldl_append, List.foldl_cons, List.foldl_nil, ← addNames]
  simp only [List.contains_iff_mem]

/-- What a row of names adds to a list are those that are not in it, each of them once and in the order in
which they come first in the row. -/
theorem exists_addNames_eq (seen names : List String) :
    ∃ fresh, addNames seen names = seen ++ fresh ∧ (∀ a, a ∈ fresh ↔ a ∈ names ∧ a ∉ seen) ∧
      fresh.Pairwise (Earlier names) := by
  induction names using List.reverseRec with
  | nil => exact ⟨[], (List.append_nil seen).symm, by simp, .nil⟩
  | append_singleton names name ih =>
    obtain ⟨fresh, hadd, hmem, horder⟩ := ih
    have horder' := horder.imp fun h => h.append [name]
    rw [addNames_concat, hadd]
    by_cases hname : name ∈ seen ++ fresh
    · refine ⟨fresh, if_pos hname, fun a => ?_, horder'⟩
      rw [List.mem_append, List.mem_singleton, hmem]
      constructor
      · exact fun h => ⟨.inl h.1, h.2⟩
      · rintro ⟨ha | rfl, hseen⟩
        · exact ⟨ha, hseen⟩
        · exact (hmem a).mp ((List.mem_append.mp hname).resolve_left hseen)
    · obtain ⟨hseen, hfresh⟩ := not_or.mp (mt List.mem_append.mpr hname)
      have hnew : name ∉ names := fun h => hfresh ((hmem name).mpr ⟨h, hseen⟩)
      refine ⟨fresh ++ [name], by rw [if_neg hname, List.append_assoc], fun a => ?_, ?_⟩
      · rw [List.mem_append, List.mem_append, List.mem_singleton, hmem]
        constructor
        · rintro (h | rfl)
          · exact ⟨.inl h.1, h.2⟩
          · exact ⟨.inr rfl, hseen⟩
        · exact fun h => h.1.imp_left fun ha => ⟨ha, h.2⟩
      · refine List.pairwise_append.mpr ⟨horder', List.pairwise_singleton _ _, fun a ha b hb => ?_⟩
        obtain rfl := List.mem_singleton.mp hb
        exact earlier_concat ((hmem a).mp ha).1 hnew

/-! ### The names of scopes in a row -/

/-- Which of two names is listed first: the one whose scope is nearer on the chain, or, if both have the
same scope, the one that was created in it first. -/
def Ahead (chain : List ScopeId) (owner? : String → Option ScopeId) (created : ScopeId → List String)
    (a b : String) : Prop :=
  ∃ j k, owner? a = some j ∧ owner? b = some k ∧ (Earlier chain j k ∨ j = k ∧ Earlier (created j) a b)

/-- No name is ahead of itself. -/
theorem Ahead.ne {chain : List ScopeId} {owner? : String → Option ScopeId}
    {created : ScopeId → List String} {a b : String} (h : Ahead chain owner? created a b) : a ≠ b := by
  rintro rfl
  obtain ⟨j, k, hj, hk, hlt | hlt⟩ := h
  · exact hlt.ne (Option.some.inj (hj.symm.trans hk))
  · exact hlt.2.ne rfl

/-- The first scope in a row that binds a name. -/
def ownerAlong? (s : Store) (js : List ScopeId) (name : String) : Option ScopeId :=
  js.find? fun j => (s.bindings j).binds name

/-- The names that the scopes in a row bind, each once. -/
def namesAlong (s : Store) (js : List ScopeId) : List String :=
  js.foldl (fun seen j => addNames seen (s.bindings j).names) []

theorem namesAlong_concat (s : Store) (js : List ScopeId) (j : ScopeId) :
    s.namesAlong (js ++ [j]) = addNames (s.namesAlong js) (s.bindings j).names := by
  rw [namesAlong, List.foldl_append]
  rfl

theorem ownerAlong?_concat (s : Store) (js : List ScopeId) (j : ScopeId) (name : String) :
    s.ownerAlong? (js ++ [j]) name =
      (s.ownerAlong? js name).or (if name ∈ (s.bindings j).names then some j else none) := by
  rw [ownerAlong?, List.find?_append, List.find?_singleton]
  simp only [Bindings.binds_iff]
  rfl

/-- A name is listed exactly if some scope binds it. -/
theorem mem_namesAlong : name ∈ s.namesAlong js ↔ (s.ownerAlong? js name).isSome := by
  induction js using List.reverseRec with
  | nil => simp [namesAlong, ownerAlong?]
  | append_singleton js j ih =>
    obtain ⟨fresh, hadd, hmem, -⟩ := exists_addNames_eq (s.namesAlong js) (s.bindings j).names
    rw [namesAlong_concat, hadd, List.mem_append, hmem, ownerAlong?_concat, Option.isSome_or,
      Bool.or_eq_true, ← ih]
    by_cases hname : name ∈ (s.bindings j).names <;> simp [hname, em]

/-- The names that the scopes in a row bind are listed by the scopes that bind them first, and those of one
scope by their order in it. -/
theorem pairwise_ahead (s : Store) (hjs : js.Nodup) :
    (s.namesAlong js).Pairwise (Ahead js (s.ownerAlong? js) fun j => (s.bindings j).names) := by
  -- by induction on the row from its end: what the last scope adds comes last
  induction js using List.reverseRec with
  | nil => exact .nil
  | append_singleton js j ih =>
    obtain ⟨hjs, -, hnew⟩ := List.nodup_append.mp hjs
    have hj : j ∉ js := fun h => hnew j h j List.mem_cons_self rfl
    obtain ⟨fresh, hadd, hmem, horder⟩ := exists_addNames_eq (s.namesAlong js) (s.bindings j).names
    have hold {a : String} {i : ScopeId} (ha : s.ownerAlong? js a = some i) :
        s.ownerAlong? (js ++ [j]) a = some i := by
      rw [ownerAlong?_concat, ha]
      rfl
    have hfresh {a : String} (ha : a ∈ fresh) : s.ownerAlong? (js ++ [j]) a = some j := by
      obtain ⟨hrow, hseen⟩ := (hmem a).mp ha
      rw [mem_namesAlong, Option.not_isSome_iff_eq_none] at hseen
      rw [ownerAlong?_concat, hseen, if_pos hrow]
      rfl
    rw [namesAlong_concat, hadd, List.pairwise_append]
    refine ⟨?_, ?_, fun a ha b hb => ?_⟩
    · refine (ih hjs).imp ?_
      rintro a b ⟨i, k, ha, hb, hlt⟩
      exact ⟨i, k, hold ha, hold hb, hlt.imp_left fun h => h.append [j]⟩
    · exact horder.imp_of_mem fun ha hb hlt => ⟨j, j, hfresh ha, hfresh hb, .inr ⟨rfl, hlt⟩⟩
    · obtain ⟨i, hi⟩ := Option.isSome_iff_exists.mp (mem_namesAlong.mp ha)
      exact ⟨i, j, hold hi, hfresh hb, .inl (earlier_concat (List.mem_of_find?_eq_some hi) hj)⟩

/-- The scopes on a chain are all different, since each is older than the one before. -/
theorem nodup_chain (s : Store) (t : ScopeId) : (s.chain t).Nodup := by
  fun_induction chain s t with
  | case1 i p _ hlt ih =>
    refine List.nodup_cons.mpr ⟨fun hi => ?_, ih⟩
    exact Nat.lt_irrefl i (Nat.lt_of_le_of_lt (le_of_mem_chain hi) hlt)
  | case2 => exact List.pairwise_singleton _ _
  | case3 => exact List.pairwise_singleton _ _

end Store

/-- The names seen from a scope are listed: each name that a look-up finds, once, by the distance of the
scope in which it is found, and those of one scope by the order in which they were created in it. -/
structure World.ListsNames (w : World) (t : ScopeId) (created : ScopeId → List String) : Prop where
  /-- no name twice -/
  nodup : (w.store.names t).Nodup
  /-- the names on the chain of the scope -/
  mem_iff_contains : ∀ name, name ∈ w.store.names t ↔ w.store.contains t name = true
  /-- the names that a look-up finds -/
  mem_iff_lookup : ∀ name, name ∈ w.store.names t ↔ ∃ v, (Eval.lookup t name w).1 = .ok v
  /-- first by the scopes, and then by age -/
  ordered : (w.store.names t).Pairwise (Store.Ahead (w.store.chain t) (w.store.owner? t) created)

theorem Eval.exists_lookup_iff {t : ScopeId} {name : String} {w : World} :
    (∃ v, (Eval.lookup t name w).1 = .ok v) ↔ w.store.contains t name = true := by
  rw [Eval.lookup_fst, Store.contains_eq_isSome_lookup?]
  cases w.store.lookup? t name <;> simp

/-- The names are listed by their order in the scopes that bind them. -/
theorem World.listsNames (w : World) (t : ScopeId) :
    w.ListsNames t fun j => (w.store.bindings j).names := by
  have hordered := w.store.pairwise_ahead (w.store.nodup_chain t)
  have hmem (name : String) : name ∈ w.store.names t ↔ w.store.contains t name = true :=
    Store.mem_namesAlong
  exact ⟨hordered.imp Store.Ahead.ne, hmem, fun name => (hmem name).trans Eval.exists_lookup_iff.symm,
    hordered⟩

/-! ### Histories -/

/-- The history tells of the names in a row, and of each for the first time in the order of the row. -/
structure Recounts (history row : List String) : Prop where
  /-- the same names -/
  mem_iff : ∀ a, a ∈ history ↔ a ∈ row
  /-- in the same order -/
  earlier : ∀ a b, Earlier row a b → Earlier history a b

namespace Recounts

variable {history row : List String}

theorem refl (row : List String) : Recounts row row := ⟨fun _ => .rfl, fun _ _ => id⟩

/-- A name that is written goes to the end of the row if it is new. -/
theorem write (h : Recounts history row) (name : String) :
    Recounts (history ++ [name]) (if name ∈ row then row else row ++ [name]) := by
  split
  next hname =>
    refine ⟨fun a => ?_, fun a b hlt => (h.earlier a b hlt).append [name]⟩
    rw [List.mem_append, List.mem_singleton, h.mem_iff]
    exact ⟨fun ha => ha.elim id fun heq => heq ▸ hname, .inl⟩
  next hname =>
    refine ⟨fun a => ?_, fun a b hlt => ?_⟩
    · rw [List.mem_append, List.mem_append, h.mem_iff]
    · obtain hlt | ⟨ha, rfl⟩ := hlt.of_concat hname
      · exact (h.earlier a b hlt).append [name]
      · exact earlier_concat ((h.mem_iff a).mpr ha) (mt (h.mem_iff b).mp hname)

/-- The history of a row without names is empty. -/
theorem eq_nil (h : Recounts history []) : history = [] :=
  List.eq_nil_iff_forall_not_mem.mpr fun a ha => absurd ((h.mem_iff a).mp ha) List.not_mem_nil

end Recounts

/-- A list that follows the order in scopes follows their histories. -/
theorem World.ListsNames.of_recounts {w : World} {t : ScopeId} {history : ScopeId → List String}
    (h : ∀ j, Recounts (history j) (w.store.bindings j).names) : w.ListsNames t history := by
  obtain ⟨hnodup, hcontains, hlookup, hordered⟩ := w.listsNames t
  refine ⟨hnodup, hcontains, hlookup, hordered.imp ?_⟩
  rintro a b ⟨j, k, ha, hb, hlt⟩
  exact ⟨j, k, ha, hb, hlt.imp_right fun hlt => ⟨hlt.1, (h j).earlier a b hlt.2⟩⟩

namespace Nest

/-- The scope in which a name is given a value: the innermost one that holds it, or else the scope
itself. -/
def home (n : Nest) (i : ScopeId) (name : String) : ScopeId :=
  ((n.path i).find? fun j => (n.table j name).isSome).getD i

/-- The names that a step writes to the scope `j`. -/
def writtenBy (n : Nest) (j : ScopeId) : ScopeStep → List String
  | .child _ bs => if j = n.size then bs.names else []
  | .define i name _ => if j = i then [name] else []
  | .assign i name _ => if j = n.home i name then [name] else []

/-- The names that several steps write to the scope `j`, one after another. -/
def written (n : Nest) (j : ScopeId) : List ScopeStep → List String
  | [] => []
  | step :: steps => n.writtenBy j step ++ (n.step step).written j steps

end Nest

theorem Store.home_nest (s : Store) (i : ScopeId) (name : String) : s.nest.home i name = s.target i name := by
  simp only [Nest.home, nest, target, owner?, Bindings.isSome_lookup]

/-- A name written to a scope that is there is the last event in the history of this scope. -/
theorem Store.recounts_define {s : Store} {i j : ScopeId} {history : List String} (hi : i < s.size)
    (h : Recounts history (s.bindings j).names) (name : String) (v : Value) :
    Recounts (history ++ if j = i then [name] else []) ((s.define i name v).bindings j).names := by
  rw [bindings_define]
  by_cases hj : j = i
  · subst hj
    rw [if_pos rfl, if_pos ⟨rfl, hi⟩, Bindings.names_insert]
    exact h.write name
  · rwa [if_neg hj, if_neg fun hij => hj hij.1, List.append_nil]

/-- The names with which a scope is made are the first events in its history. -/
theorem Store.recounts_push {s : Store} {j : ScopeId} {history : List String}
    (h : Recounts history (s.bindings j).names) (parent : Option ScopeId) (bs : Bindings) :
    Recounts (history ++ if j = s.size then bs.names else []) ((s.push parent bs).bindings j).names := by
  rw [bindings_push]
  by_cases hj : j = s.size
  · have hnone : s.bindings j = [] := by
      rw [hj, bindings, size, Array.getElem?_eq_none (Nat.le_refl _)]
    rw [hnone] at h
    rw [if_pos hj, if_pos hj, h.eq_nil]
    exact .refl bs.names
  · rwa [if_neg hj, if_neg hj, List.append_nil]

namespace ScopeStep

variable {history : ScopeId → List String}

/-- What a step writes comes last in the histories of the scopes. -/
theorem perform_recounts {w w' : World} {step : ScopeStep} (hscope : step.scope < w.store.size)
    (h : ∀ j, Recounts (history j) (w.store.bindings j).names) (hstep : step.perform w = (.ok (), w'))
    (j : ScopeId) :
    Recounts (history j ++ w.store.nest.writtenBy j step) (w'.store.bindings j).names := by
  cases step with
  | child p bs =>
    cases hstep
    exact Store.recounts_push (h j) (some p) bs
  | define i name v =>
    cases hstep
    exact Store.recounts_define hscope (h j) name v
  | assign i name v =>
    cases hstep
    rw [Nest.writtenBy, Store.home_nest]
    exact Store.recounts_define (Store.target_lt_size hscope name) (h j) name v

/-- So does what a course of steps writes. -/
theorem performAll_recounts {w : World} {steps : List ScopeStep} (hsteps : Admitted w.store.size steps)
    (h : ∀ j, Recounts (history j) (w.store.bindings j).names) :
    ∃ w', performAll steps w = (.ok (), w') ∧
      ∀ j, Recounts (history j ++ w.store.nest.written j steps) (w'.store.bindings j).names := by
  induction steps generalizing w history with
  | nil => exact ⟨w, rfl, fun j => (List.append_nil (history j)).symm ▸ h j⟩
  | cons step steps ih =>
    obtain ⟨w₁, hstep, hnest, hsize⟩ := perform_nest hsteps.1
    obtain ⟨w₂, hrun, h₂⟩ := ih (hsize ▸ hsteps.2) (perform_recounts hsteps.1 h hstep)
    refine ⟨w₂, ?_, fun j => ?_⟩
    · rw [performAll, Eval.bind_run, hstep]
      exact hrun
    · rw [Nest.written, ← List.append_assoc, ← hnest]
      exact h₂ j

end ScopeStep

/-- The names seen from a scope are listed as look-ups find them. From every scope each name is listed that
is bound on the chain of the scope, which are the names that a look-up finds. None is listed twice, and they
come by the distance of the scope in which a look-up finds them and then by their order in that scope. This
is so after any course of new scopes and writes, and then the order in a scope is the one in which the
course first wrote the names to it, behind those that it bound before. -/
theorem Store.names_listed :
    (∀ (w : World) (t : ScopeId), w.ListsNames t fun j => (w.store.bindings j).names) ∧
      ∀ (w : World) (steps : List ScopeStep), ScopeStep.Admitted w.store.size steps →
        ∃ w', ScopeStep.performAll steps w = (.ok (), w') ∧ ∀ t, w'.ListsNames t fun j =>
          (w.store.bindings j).names ++ w.store.nest.written j steps := by
  refine ⟨World.listsNames, fun w steps hsteps => ?_⟩
  obtain ⟨w', hrun, hhistory⟩ := ScopeStep.performAll_recounts hsteps fun j => .refl _
  exact ⟨w', hrun, fun t => .of_recounts hhistory⟩

/-- A new scope assigns to a name bound further out and then defines it itself. In the list of names seen
from there it comes behind the name with which the scope was made. -/
theorem Store.names_listed_shadedForest :
    ScopeStep.Admitted shadedForest.size
        [.child 1 [("y", .int 5)], .assign 3 "x" (.int 9), .define 3 "x" (.int 10)] ∧
      ∃ w' created, ScopeStep.performAll
          [.child 1 [("y", .int 5)], .assign 3 "x" (.int 9), .define 3 "x" (.int 10)]
          ⟨shadedForest, "", ""⟩ = (.ok (), w') ∧ w'.ListsNames 3 created ∧
        created 0 = ["x", "x"] ∧ created 1 = [] ∧ created 3 = ["y", "x"] := by
  have hadmitted : ScopeStep.Admitted shadedForest.size
      [.child 1 [("y", .int 5)], .assign 3 "x" (.int 9), .define 3 "x" (.int 10)] := by decide
  obtain ⟨w', hrun, hlists⟩ := Store.names_listed.2 ⟨shadedForest, "", ""⟩ _ hadmitted
  simp only [nest_shadedForest] at hlists
  exact ⟨hadmitted, w', _, hrun, hlists 3, rfl, rfl, rfl⟩

end Kestrel
