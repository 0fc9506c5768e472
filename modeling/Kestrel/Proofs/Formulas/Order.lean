import Kestrel.Proofs.Rendering.Expression
import Mathlib.Data.List.Induction

/-!
# Sums and products on the stack

The machine for expressions keeps on its stack what waits for an operand. Where all operators are sums
and products, there are products on top of the stack and sums below them. A sum completes them all; a
product completes products only, so behind a sum it gets into the operand of that sum.

* `AtLevel` — operators of one level on the stack, and `complete`, what becomes of them;
* `leftTree` — the tree in which the last operator is applied last;
* `pending`, `orderedTree` — what the machine holds behind operators and operands, and the tree it ends
  with;
* `orderedTree_eq_leftTree_iff` — the two trees are one exactly if no product follows a sum.
-/

namespace Kestrel.Formulas

open Reader Written

/-! ### Operators of one level -/

/-- On the stack there are operators of the level, and nothing else. -/
def AtLevel (level : Nat) (stack : List Pending) : Prop :=
  ∀ p ∈ stack, ∃ op left, p = .binary op left ∧ op.level = level

/-- The operators on the stack, applied to the operand one after another. -/
def complete : List Pending → Node → Node
  | .binary op left :: stack, e => complete stack (.binary op left e)
  | _, e => e

variable {level least : Nat} {stack rest : List Pending} {e : Node}

theorem atLevel_nil (level : Nat) : AtLevel level [] := nofun

theorem atLevel_cons {op : BinaryOp} {left : Node} :
    AtLevel level (.binary op left :: stack) ↔ op.level = level ∧ AtLevel level stack := by
  simp [AtLevel]

theorem settle_append (h : AtLevel level stack) (hlt : least < level) (rest : List Pending) (e : Node) :
    settle least (stack ++ rest) e = settle least rest (complete stack e) := by
  induction stack generalizing e with
  | nil => rfl
  | cons p stack ih =>
    obtain ⟨op, left, rfl, -⟩ := h p List.mem_cons_self
    obtain ⟨hop, hstack⟩ := atLevel_cons.mp h
    rw [List.cons_append, settle_binary (hop ▸ hlt), ih hstack, complete]

theorem settle_complete (h : AtLevel level stack) (hlt : least < level) (e : Node) :
    settle least stack e = ([], complete stack e) := by
  rw [← List.append_nil stack, settle_append h hlt, List.append_nil, settle_eq_self (Nat.zero_le least)]

theorem settle_of_le (h : AtLevel level stack) (hle : level ≤ least) (e : Node) :
    settle least stack e = (stack, e) := by
  cases stack with
  | nil => rfl
  | cons p stack =>
    obtain ⟨op, left, rfl, hop⟩ := h p List.mem_cons_self
    exact settle_eq_self (show op.level ≤ least from hop ▸ hle) e

/-- The operator that is applied last stands at the bottom. -/
theorem exists_complete_eq (h : AtLevel level stack) (hne : stack ≠ []) (e : Node) :
    ∃ op left right, complete stack e = .binary op left right ∧ op.level = level := by
  induction stack generalizing e with
  | nil => exact absurd rfl hne
  | cons p stack ih =>
    obtain ⟨op, left, rfl, hop⟩ := h p List.mem_cons_self
    obtain ⟨-, hstack⟩ := atLevel_cons.mp h
    rw [complete]
    cases stack with
    | nil => exact ⟨op, left, e, rfl, hop⟩
    | cons q stack => exact ih hstack (List.cons_ne_nil q stack) _

/-! ### The two trees -/

/-- Operators, each with the operand behind it. -/
abbrev Terms := List (BinaryOp × Node)

/-- The tree in which each operator is applied to all that stands before it. -/
def leftTree (first : Node) (terms : Terms) : Node :=
  terms.foldl (fun e t => .binary t.1 e t.2) first

/-- What the machine holds after an operator and an operand: what waits, and the operand. -/
def take (s : List Pending × Node) (t : BinaryOp × Node) : List Pending × Node :=
  (.binary t.1 (settle (t.1.level - 1) s.1 s.2).2 :: (settle (t.1.level - 1) s.1 s.2).1, t.2)

/-- What the machine holds behind a first operand and the terms after it. -/
def pending (first : Node) (terms : Terms) : List Pending × Node :=
  terms.foldl take ([], first)

/-- The tree that the machine makes of it at the end. -/
def orderedTree (first : Node) (terms : Terms) : Node :=
  (settle 0 (pending first terms).1 (pending first terms).2).2

/-- The level of sums and differences. -/
def sumLevel : Nat := BinaryOp.add.level

/-- The level of products and quotients. -/
def productLevel : Nat := BinaryOp.mul.level

/-- Each operator is a sum or a product. -/
def Arithmetic (terms : Terms) : Prop :=
  ∀ t ∈ terms, t.1.level = sumLevel ∨ t.1.level = productLevel

/-- What the machine holds where all operators are sums and products. -/
structure Holds (first : Node) (terms : Terms) (products sums : List Pending) (e : Node) : Prop where
  /-- products wait above sums -/
  eq : pending first terms = (products ++ sums, e)
  /-- those are products -/
  above : AtLevel productLevel products
  /-- and these are sums -/
  below : AtLevel sumLevel sums
  /-- a sum waits if there has been one -/
  nil_iff : sums = [] ↔ ∀ t ∈ terms, t.1.level = productLevel

variable {first : Node} {terms : Terms} {products sums : List Pending}

theorem pending_concat (first : Node) (terms : Terms) (t : BinaryOp × Node) :
    pending first (terms ++ [t]) = take (pending first terms) t := by
  rw [pending, List.foldl_append]
  rfl

theorem leftTree_concat (first : Node) (terms : Terms) (t : BinaryOp × Node) :
    leftTree first (terms ++ [t]) = .binary t.1 (leftTree first terms) t.2 := by
  rw [leftTree, List.foldl_append]
  rfl

namespace Holds

/-- All that waits is completed below the level of sums. -/
theorem settle_eq (h : Holds first terms products sums e) (hlt : least < sumLevel) :
    settle least (products ++ sums) e = ([], complete sums (complete products e)) := by
  have hproduct : least < productLevel := Nat.lt_trans hlt (by decide)
  rw [settle_append h.above hproduct, settle_complete h.below hlt]

theorem orderedTree_eq (h : Holds first terms products sums e) :
    orderedTree first terms = complete sums (complete products e) := by
  rw [orderedTree, h.eq, h.settle_eq (by decide)]

theorem settle_zero (h : Holds first terms products sums e) :
    settle 0 (pending first terms).1 (pending first terms).2 = ([], orderedTree first terms) := by
  rw [h.orderedTree_eq, h.eq, h.settle_eq (by decide)]

/-- A sum completes all that waits. -/
theorem sum (h : Holds first terms products sums e) {t : BinaryOp × Node} (ht : t.1.level = sumLevel) :
    Holds first (terms ++ [t]) [] [.binary t.1 (orderedTree first terms)] t.2 := by
  have hsettle : settle (t.1.level - 1) (products ++ sums) e = ([], orderedTree first terms) := by
    rw [h.orderedTree_eq, ht, h.settle_eq (by decide)]
  refine ⟨?_, atLevel_nil _, atLevel_cons.mpr ⟨ht, atLevel_nil _⟩, iff_of_false nofun fun hall => ?_⟩
  · rw [pending_concat, h.eq, take, hsettle]
    rfl
  · have hproduct := hall t (List.mem_append_right _ List.mem_cons_self)
    rw [ht] at hproduct
    cases hproduct

/-- A product completes the products that wait, but no sum. -/
theorem product (h : Holds first terms products sums e) {t : BinaryOp × Node}
    (ht : t.1.level = productLevel) :
    Holds first (terms ++ [t]) [.binary t.1 (complete products e)] sums t.2 := by
  have hsettle : settle (t.1.level - 1) (products ++ sums) e = (sums, complete products e) := by
    rw [ht, settle_append h.above (by decide), settle_of_le h.below (by decide)]
  refine ⟨?_, atLevel_cons.mpr ⟨ht, atLevel_nil _⟩, h.below, h.nil_iff.trans ?_⟩
  · rw [pending_concat, h.eq, take, hsettle]
    rfl
  · rw [List.forall_mem_append, List.forall_mem_singleton]
    exact (and_iff_left ht).symm

end Holds

theorem exists_holds (h : Arithmetic terms) (first : Node) :
    ∃ products sums e, Holds first terms products sums e := by
  induction terms using List.reverseRecOn with
  | nil => exact ⟨[], [], first, rfl, atLevel_nil _, atLevel_nil _, iff_of_true rfl nofun⟩
  | append_singleton terms t ih =>
    obtain ⟨hterms, ht⟩ := List.forall_mem_append.mp h
    obtain ⟨products, sums, e, hholds⟩ := ih hterms
    obtain ht | ht := ht t List.mem_cons_self
    · exact ⟨_, _, _, hholds.sum ht⟩
    · exact ⟨_, _, _, hholds.product ht⟩

/-- The machine ends with a tree. -/
theorem settle_pending (h : Arithmetic terms) (first : Node) :
    settle 0 (pending first terms).1 (pending first terms).2 = ([], orderedTree first terms) := by
  obtain ⟨products, sums, e, hholds⟩ := exists_holds h first
  exact hholds.settle_zero

/-- Where an operator is applied to all that stands before it, the trees are one if they were so
before it. -/
theorem eq_concat_iff {t : BinaryOp × Node}
    (h : orderedTree first (terms ++ [t]) = .binary t.1 (orderedTree first terms) t.2) :
    orderedTree first (terms ++ [t]) = leftTree first (terms ++ [t]) ↔
      orderedTree first terms = leftTree first terms := by
  rw [h, leftTree_concat, Node.binary.injEq, and_iff_left rfl, and_iff_right rfl]

/-- The machine applies the operators from the left exactly if no product follows a sum. -/
theorem orderedTree_eq_leftTree_iff (h : Arithmetic terms) (first : Node) :
    orderedTree first terms = leftTree first terms ↔
      terms.Pairwise fun t u => t.1.level = sumLevel → u.1.level ≠ productLevel := by
  induction terms using List.reverseRecOn with
  | nil => exact iff_of_true rfl .nil
  | append_singleton terms t ih =>
    obtain ⟨hterms, ht⟩ := List.forall_mem_append.mp h
    obtain ⟨products, sums, e, hholds⟩ := exists_holds hterms first
    rw [List.pairwise_append, ← ih hterms]
    simp only [List.mem_singleton, forall_eq, List.pairwise_singleton, true_and]
    obtain ht | ht := ht t List.mem_cons_self
    case inl =>
      -- a sum
      have hlast : orderedTree first (terms ++ [t]) = .binary t.1 (orderedTree first terms) t.2 :=
        (hholds.sum ht).orderedTree_eq
      rw [eq_concat_iff hlast, and_iff_left]
      intro u _ _ hproduct
      rw [ht] at hproduct
      cases hproduct
    case inr =>
      have hlast : orderedTree first (terms ++ [t]) =
          complete sums (.binary t.1 (complete products e) t.2) := (hholds.product ht).orderedTree_eq
      have hall := hholds.nil_iff
      by_cases hsums : sums = []
      · -- a product where there has been no sum
        have hbefore := hholds.orderedTree_eq
        rw [hsums] at hlast hbefore
        have hlast : orderedTree first (terms ++ [t]) = .binary t.1 (orderedTree first terms) t.2 := by
          rw [hlast, hbefore]
          rfl
        rw [eq_concat_iff hlast, and_iff_left]
        intro u hu hsum
        rw [hall.mp hsums u hu] at hsum
        cases hsum
      · -- a product behind a sum, which is applied after it
        obtain ⟨op, left, right, htree, hop⟩ := exists_complete_eq hholds.below hsums
          (.binary t.1 (complete products e) t.2)
        refine iff_of_false (fun heq => ?_) fun hpairs => hsums (hall.mpr fun u hu => ?_)
        · rw [hlast, htree, leftTree_concat] at heq
          cases heq
          rw [ht] at hop
          cases hop
        · exact (hterms u hu).resolve_left fun hsum => hpairs.2 u hu hsum ht

end Kestrel.Formulas
