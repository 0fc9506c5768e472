import Kestrel.Proofs.Growth.Change
import Kestrel.Proofs.Past.Reset
import Kestrel.Proofs.Scopes.Isolation

/-!
# Evaluation only adds

No evaluation takes anything away, not even one that fails halfway. Scopes keep their parents, names
stay bound where they were bound and in the order in which they were, with new names behind them, and
what was printed comes after what was printed before. So what can be seen from a scope can be seen from
there for ever.

* `Store.Extends` — a store with everything that was in another one;
* `Store.Changes.extends` — writes only add;
* `Store.Extends.contains` — what could be seen can still be seen;
* `Session.changes_after` — a session only writes to the scopes, until it is reset;
* `Node.evalWithin_only_adds` — evaluation, and all that a session does from then on.
-/

namespace Kestrel

namespace Store

/-- Every scope is still there, with the same parent and with the names that it bound, in the same order
and before all others. -/
structure Extends (s s' : Store) : Prop where
  /-- no scope has gone away -/
  size_le : s.size ≤ s'.size
  /-- no scope that was there has another parent -/
  parent? : ∀ i < s.size, s'.parent? i = s.parent? i
  /-- the names that a scope bound come first -/
  names : ∀ i, (s.bindings i).names <+: (s'.bindings i).names

variable {s s' s'' : Store}

theorem Extends.refl (s : Store) : Extends s s :=
  ⟨Nat.le_refl _, fun _ _ => rfl, fun _ => List.prefix_refl _⟩

theorem Extends.trans (h : Extends s s') (h' : Extends s' s'') : Extends s s'' where
  size_le := Nat.le_trans h.size_le h'.size_le
  parent? i hi := (h'.parent? i (Nat.lt_of_lt_of_le hi h.size_le)).trans (h.parent? i hi)
  names i := (h.names i).trans (h'.names i)

/-! ### Writes -/

/-- A name that is given a value keeps its place, or comes last if it is new. -/
theorem prefix_names_insert (bs : Bindings) (name : String) (v : Value) :
    bs.names <+: (bs.insert name v).names := by
  rw [Bindings.names_insert]
  split
  · exact List.prefix_refl _
  · exact List.prefix_append _ _

theorem extends_define (s : Store) (i : ScopeId) (name : String) (v : Value) :
    Extends s (s.define i name v) where
  size_le := Nat.le_of_eq (size_define s i name v).symm
  parent? j _ := parent?_define s i j name v
  names j := by
    rw [bindings_define]
    split
    next h =>
      obtain ⟨rfl, -⟩ := h
      exact prefix_names_insert _ name v
    next => exact List.prefix_refl _

theorem extends_push (s : Store) (parent : Option ScopeId) (bs : Bindings) :
    Extends s (s.push parent bs) where
  size_le := by
    rw [size_push]
    exact Nat.le_succ _
  parent? i hi := by rw [parent?_push, if_neg (Nat.ne_of_lt hi)]
  names i := by
    rw [bindings_push]
    split
    next h =>
      -- the scope was not there, so it bound nothing
      rw [h, bindings_of_size_le (Nat.le_refl _)]
      exact List.nil_prefix
    next => exact List.prefix_refl _

theorem Change.extends (h : Change s s') : Extends s s' := by
  cases h with
  | define i name v => exact extends_define s i name v
  | push parent bs => exact extends_push s (some parent) bs

/-- Writes only add. -/
theorem Changes.extends (h : Changes s s') : Extends s s' := by
  induction h with
  | refl => exact .refl s
  | tail _ hlast ih => exact ih.trans hlast.extends

/-! ### What can be seen -/

/-- The scopes around a scope stay the same. -/
theorem Extends.chain (h : Extends s s') {i : ScopeId} (hi : i < s.size) :
    s'.chain i = s.chain i := by
  fun_induction Store.chain s i with
  | case1 i p hp hlt ih =>
    rw [Store.chain, h.parent? i hi, hp]
    simp only [hlt, if_true, ih (Nat.lt_trans hlt hi)]
  | case2 i p hp hlt =>
    rw [Store.chain, h.parent? i hi, hp]
    simp only [hlt, if_false]
  | case3 i hp => rw [Store.chain, h.parent? i hi, hp]

theorem contains_iff {i : ScopeId} {name : String} :
    s.contains i name = true ↔ ∃ j ∈ s.chain i, name ∈ (s.bindings j).names := by
  simp only [contains, owner?, List.find?_isSome, Bindings.binds_iff]

/-- From a scope that is not there nothing can be seen. -/
theorem lt_size_of_contains {i : ScopeId} {name : String} (h : s.contains i name = true) :
    i < s.size := by
  by_contra hi
  have hsize : s.size ≤ i := Nat.le_of_not_lt hi
  have hchain : s.chain i = [i] := by rw [Store.chain, parent?_of_size_le hsize]
  rw [contains_iff, hchain] at h
  obtain ⟨j, hj, hname⟩ := h
  rw [List.mem_singleton.mp hj, bindings_of_size_le hsize] at hname
  cases hname

/-- What could be seen from a scope can still be seen from there. -/
theorem Extends.contains (h : Extends s s') {i : ScopeId} {name : String}
    (hname : s.contains i name = true) : s'.contains i name = true := by
  have hi := lt_size_of_contains hname
  obtain ⟨j, hj, hname⟩ := contains_iff.mp hname
  exact contains_iff.mpr ⟨j, h.chain hi ▸ hj, (h.names j).subset hname⟩

end Store

/-! ### What is printed -/

/-- What a computation prints: what has been printed after it where nothing had been before. -/
def Eval.printed {α : Type} (m : Eval α) (w : World) : String :=
  (m { w with output := "" }).2.output

/-- A store agrees with itself everywhere. -/
theorem Store.coupled_self (s : Store) : Store.Coupled (fun _ => True) s s where
  size := rfl
  parent? _ := rfl
  bindings _ _ := rfl
  parent_mem _ _ _ _ := True.intro
  home_mem _ _ _ _ := True.intro
  new_mem _ _ := True.intro

theorem Node.output_evalWithin (host : Host) (calls : Nat) (scope : ScopeId) (n : Node) (w : World) :
    (n.evalWithin host calls scope w).2.output =
      w.output ++ (n.evalWithin host calls scope).printed w := by
  have hblind := Node.blind_evalWithin (A := fun _ => True) host calls scope n True.intro
  obtain ⟨text, hw, hblank⟩ := (hblind w { w with output := "" } w.store.coupled_self).output
  rw [hw, Eval.printed, hblank, String.empty_append]

/-! ### Sessions -/

namespace Session

theorem changes_perform {α : Type} (s : Session) {m : Eval α} (hm : m.Changes) :
    s.world.store.Changes (s.perform m).2.world.store := by
  have hw := hm s.world
  rw [perform]
  rcases hr : m s.world with ⟨_ | a, w⟩ <;>
    · rw [hr] at hw
      exact hw

theorem changes_runParsed (s : Session) (filename : String) (program : Except Problem (List Node)) :
    s.world.store.Changes (s.runParsed filename program).2.world.store := by
  cases program with
  | error e => exact .refl
  | ok statements =>
    have hline (line : Store → String) : (Eval.traceLine s.host line).Changes :=
      .of_quiet (.traceLine s.host line)
    refine s.changes_perform (.bind (hline _) fun _ => .bind (hline _) fun _ => ?_)
    exact Node.changes_evalWithin s.host s.host.calls globalScope (.block statements)

theorem changes_answer (s : Session) {request : Request} (h : request ≠ .reset) :
    s.world.store.Changes (s.answer request).2.world.store := by
  cases request with
  | source text filename => exact s.changes_runParsed filename _
  | file path => exact s.changes_runParsed path _
  | expression text =>
    rw [answer, evalExpression]
    split
    next => exact .refl
    next e _ => exact s.changes_perform (Node.changes_evalWithin s.host s.host.calls globalScope e)
  | reset => exact absurd rfl h

/-- Until it is reset, a session does nothing to the scopes but to write to them. -/
theorem changes_after (s : Session) {requests : List Request} (h : .reset ∉ requests) :
    s.world.store.Changes (s.after requests).world.store := by
  induction requests generalizing s with
  | nil => exact .refl
  | cons request requests ih =>
    obtain ⟨hfirst, hrest⟩ := List.ne_and_not_mem_of_not_mem_cons h
    exact (s.changes_answer hfirst.symm).trans (ih (s.answer request).2 hrest)

end Session

/-- Evaluation only adds, whether it gives a value or fails at any depth. Each scope that was there
keeps its parent, the names that it bound come first among those that it binds, in the same order, and
what was printed follows what had been printed before. So every name that could be seen from a scope can
be seen from there afterwards, and after whatever a session is asked for in the same global scope. -/
theorem Node.evalWithin_only_adds (host : Host) (calls : Nat) (scope : ScopeId) (n : Node)
    (w : World) :
    w.store.Extends (n.evalWithin host calls scope w).2.store ∧
      (n.evalWithin host calls scope w).2.output =
        w.output ++ (n.evalWithin host calls scope).printed w ∧
      (∀ i name, w.store.contains i name = true →
        (n.evalWithin host calls scope w).2.store.contains i name = true) ∧
      ∀ (s : Session) (requests : List Request), .reset ∉ requests → ∀ i name,
        s.world.store.contains i name = true →
          (s.after requests).world.store.contains i name = true := by
  have hextends := (n.changes_evalWithin host calls scope w).extends
  refine ⟨hextends, n.output_evalWithin host calls scope w, fun i name => hextends.contains, ?_⟩
  intro s requests hreset i name hname
  exact (s.changes_after hreset).extends.contains hname

/-- A program that fails after it has bound a name, and a session that goes on with a text and a
file. -/
theorem Node.evalWithin_only_adds_failing :
    let host : Host := ⟨Files.empty, false, .ofCalls 1000⟩
    let w : World := ⟨Store.root [("x", .int 1)], "out", ""⟩
    let n : Node := .block [.print (.var "x"), .assign "y" (.int 2), .var "z"]
    let requests : List Request := [.source "w = x; z" "first", .file "second"]
    w.store.Extends (n.evalWithin host 1 0 w).2.store ∧
      (n.evalWithin host 1 0 w).2.output = w.output ++ (n.evalWithin host 1 0).printed w ∧
      (w.store.contains 0 "x" = true ∧ (n.evalWithin host 1 0 w).2.store.contains 0 "x" = true) ∧
      .reset ∉ requests ∧
        ((Session.mk host w).after requests).world.store.contains 0 "x" = true := by
  intro host w n requests
  have hx : w.store.contains 0 "x" = true := by decide +kernel
  have hreset : .reset ∉ requests := by simp [requests]
  obtain ⟨hextends, houtput, hcontains, hsession⟩ := Node.evalWithin_only_adds host 1 0 n w
  exact ⟨hextends, houtput, ⟨hx, hcontains 0 "x" hx⟩, hreset,
    hsession ⟨host, w⟩ requests hreset 0 "x" hx⟩

end Kestrel
