import Mathlib.Data.List.FinRange
import Kestrel.Proofs.Outlines.Tree
import Kestrel.Proofs.Tracing.Writable

/-!
# Outlines and searches walk alike

A node of a tree is reached by a path: the numbers of the children that one goes down to, one after another.
The same node may be reached by several paths, and each of them is an occurrence of its own. A search and an
outline both go to every occurrence once, to a node before those below it and to the children in their
order. So the lines of an outline belong to the nodes that a search finds, and a search for one kind finds
these nodes less those of other kinds.

* `descend?`, `occurrences` — the node that a path leads to, and all of them with their paths;
* `mem_occurrences_iff`, `pairwise_occurrences` — every path is there once, in lexicographic order;
* `findAll_eq_filter`, `outline_eq_map` — searches and outlines by occurrences;
* `writable_iff` — a tree can be written if the integers in it can;
* `outline_follows_search` — the lines of an outline and the nodes that a search finds.
-/

namespace Kestrel.Node

open Text

variable {n m : Node} {path : List Nat} {level : Int}

/-! ### Paths -/

/-- The node that a path leads to: each number is that of the next child to go down to. -/
def descend? (n : Node) : List Nat → Option Node
  | [] => some n
  | k :: path => n.children[k]?.bind fun m => m.descend? path

theorem descend?_append (n : Node) (path more : List Nat) :
    n.descend? (path ++ more) = (n.descend? path).bind fun m => m.descend? more := by
  induction path generalizing n with
  | nil => rfl
  | cons k path ih =>
    rw [List.cons_append, descend?, descend?, Option.bind_assoc]
    exact Option.bind_congr fun m _ => ih m

/-- The nodes of a tree with the paths to them, the root first and then what is below its children in
order. -/
def occurrences (n : Node) : List (List Nat × Node) :=
  ([], n) :: (List.finRange n.children.length).flatMap fun k =>
    (occurrences n.children[k]).map fun o => (k.val :: o.1, o.2)
termination_by sizeOf n
decreasing_by exact sizeOf_lt_of_mem_children (List.getElem_mem _)

/-- The occurrences are those of all paths that lead to a node. -/
theorem mem_occurrences_iff : (path, m) ∈ n.occurrences ↔ n.descend? path = some m := by
  induction path generalizing n with
  | nil =>
    rw [occurrences, List.mem_cons, descend?, Option.some_inj]
    constructor
    · rintro (h | h)
      · exact (Prod.mk.inj h).2.symm
      · obtain ⟨k, -, h⟩ := List.mem_flatMap.mp h
        obtain ⟨o, -, h⟩ := List.mem_map.mp h
        cases h
    · exact fun h => .inl (h ▸ rfl)
  | cons k path ih =>
    rw [occurrences, List.mem_cons, descend?, Option.bind_eq_some_iff]
    constructor
    · rintro (h | h)
      · cases h
      · obtain ⟨i, -, h⟩ := List.mem_flatMap.mp h
        obtain ⟨o, ho, h⟩ := List.mem_map.mp h
        cases h
        exact ⟨n.children[i], List.getElem?_eq_getElem i.isLt, ih.mp ho⟩
    · rintro ⟨child, hchild, h⟩
      obtain ⟨hk, rfl⟩ := List.getElem?_eq_some_iff.mp hchild
      refine .inr (List.mem_flatMap.mpr ⟨⟨k, hk⟩, List.mem_finRange _, ?_⟩)
      exact List.mem_map.mpr ⟨(path, m), ih.mpr h, rfl⟩

/-- The occurrences come in the lexicographic order of their paths, so there is none twice. -/
theorem pairwise_occurrences (n : Node) : n.occurrences.Pairwise fun o o' => o.1 < o'.1 := by
  induction n using occurrences.induct with
  | case1 n ih =>
    rw [occurrences, List.pairwise_cons, List.pairwise_flatMap]
    refine ⟨fun o ho => ?_, fun k _ => ?_, ?_⟩
    · obtain ⟨k, -, ho⟩ := List.mem_flatMap.mp ho
      obtain ⟨o', -, rfl⟩ := List.mem_map.mp ho
      exact List.nil_lt_cons _ _
    · exact List.pairwise_map.mpr ((ih k).imp fun h => List.cons_lt_cons_iff.mpr (.inr ⟨rfl, h⟩))
    · refine (List.pairwise_lt_finRange _).imp fun hlt o ho o' ho' => ?_
      obtain ⟨x, -, rfl⟩ := List.mem_map.mp ho
      obtain ⟨x', -, rfl⟩ := List.mem_map.mp ho'
      exact List.cons_lt_cons_iff.mpr (.inl hlt)

/-! ### Walks -/

/-- What is made of the children in order is made of them by number. -/
theorem flatMap_children {α : Type} (n : Node) (f : Node → List α) :
    n.children.flatMap f = (List.finRange n.children.length).flatMap fun k => f n.children[k] := by
  rw [← List.flatMap_map (fun k : Fin n.children.length => n.children[k]) f]
  exact congrArg (List.flatMap f) (List.map_getElem_finRange n.children).symm

/-- A search goes to every occurrence. -/
theorem findAll_eq_filter (p : Node → Bool) (n : Node) :
    n.findAll p = (n.occurrences.map (·.2)).filter p := by
  induction n using occurrences.induct with
  | case1 n ih =>
    have hbelow : ((List.finRange n.children.length).flatMap fun k => findAll p n.children[k]) =
        (List.finRange n.children.length).flatMap fun k =>
          ((occurrences n.children[k]).map (·.2)).filter p :=
      congrArg (fun f => List.flatMap f _) (funext ih)
    rw [occurrences, findAll_eq, flatMap_children, hbelow, List.map_cons, List.filter_cons,
      List.map_flatMap, List.filter_flatMap]
    simp only [List.map_map, Function.comp_def]
    split <;> rfl

/-- An outline has one line for each occurrence, as far in as the path is long. -/
theorem outline_eq_map (level : Int) (n : Node) :
    n.outline level =
      n.occurrences.map fun o => indentation (level + o.1.length) ++ o.2.heading := by
  induction n using occurrences.induct generalizing level with
  | case1 n ih =>
    have hbelow : ((List.finRange n.children.length).flatMap fun k =>
        outline (level + 1) n.children[k]) = (List.finRange n.children.length).flatMap fun k =>
          (occurrences n.children[k]).map fun o =>
            indentation (level + 1 + o.1.length) ++ o.2.heading :=
      congrArg (fun f => List.flatMap f _) (funext fun k => ih k (level + 1))
    have hlevel (k : Nat) : level + 1 + (k : Int) = level + ((k + 1 : Nat) : Int) := by omega
    rw [occurrences, outline_eq, flatMap_children, hbelow, List.map_cons, List.map_flatMap]
    simp only [List.map_map, Function.comp_def, List.length_nil, List.length_cons, hlevel]
    rw [Int.natCast_zero, Int.add_zero]

/-! ### What can be written -/

theorem isOverlong_int (value : Int) : isOverlong (.int value) = false ↔ WithinLimit value := by
  rw [← Value.writable_int_iff, Value.Writable, Value.text?, isOverlong, Option.isNone_eq_false_iff]

/-- A tree can be written exactly if every integer that occurs in it can. -/
theorem writable_iff :
    n.writable = true ↔ ∀ path value, n.descend? path = some (.int value) → WithinLimit value := by
  rw [writable, findAll_eq_filter, List.isEmpty_iff, List.filter_eq_nil_iff, List.forall_mem_map]
  constructor
  · intro h path value hvalue
    rw [← isOverlong_int, ← Bool.not_eq_true]
    exact h (path, .int value) (mem_occurrences_iff.mpr hvalue)
  · rintro h ⟨path, m⟩ ho
    have hm := mem_occurrences_iff.mp ho
    cases m with
    | int value =>
      rw [Bool.not_eq_true, isOverlong_int]
      exact h path value hm
    | _ => exact Bool.false_ne_true

/-- What occurs in a tree that can be written can be written. -/
theorem writable_of_descend? (hn : n.writable = true) (hm : n.descend? path = some m) :
    m.writable = true := by
  refine writable_iff.mpr fun more value hvalue => writable_iff.mp hn (path ++ more) value ?_
  rw [descend?_append, hm]
  exact hvalue

/-- An outline starts with the line of the root. -/
theorem exists_outlineText_eq (hn : n.writable = true) (level : Int) :
    ∃ text, n.outlineText? level = some text ∧
      (lines text.toList).head? = some (indentation level ++ n.heading).toList := by
  have htext : n.outlineText? level = some (String.join ((n.outline level).map (· ++ "\n"))) :=
    if_pos hn
  refine ⟨_, htext, ?_⟩
  rw [lines_outlineText htext, outline_eq, List.map_cons, List.cons_append, List.head?_cons]

/-! ### Lines and nodes -/

/-- The outline of a tree follows the search for all its nodes, if the integers in it can be written.

The search finds the node of each path that leads to one, once, and in the lexicographic order of paths: a
node before those below it, and what is below a child before what is below the next one. At any level the
outline has one line for each node found, made of characters that can be printed and closed by a line feed.
It is the first line of the outline of this node, at the given level plus the length of the path. And the
search for a kind of nodes finds the nodes of this kind among them, in the same order. -/
theorem outline_follows_search (n : Node)
    (hn : ∀ path value, n.descend? path = some (.int value) → WithinLimit value) :
    let found := n.findAll (isKind anyKind)
    (found = n.occurrences.map (·.2) ∧
      (∀ path m, (path, m) ∈ n.occurrences ↔ n.descend? path = some m) ∧
      n.occurrences.Pairwise fun o o' => o.1 < o'.1) ∧
    (∀ level, ∃ text rows, n.outlineText? level = some text ∧ lines text.toList = rows ++ [[]] ∧
      rows.length = found.length ∧ (∀ row ∈ rows, Printable row) ∧
      ∀ (k : Nat) (m : Node), found[k]? = some m → ∃ path text', n.occurrences[k]? = some (path, m) ∧
        m.outlineText? (level + path.length) = some text' ∧ rows[k]? = (lines text'.toList).head?) ∧
    ∀ kind, n.findAll (isKind kind) = found.filter (isKind kind) := by
  intro found
  have hfound : found = n.occurrences.map (·.2) := by
    have hany : (n.occurrences.map (·.2)).filter (isKind anyKind) = n.occurrences.map (·.2) :=
      List.filter_eq_self.mpr fun _ _ => rfl
    exact (findAll_eq_filter _ n).trans hany
  have hwritable := writable_iff.mpr hn
  refine ⟨⟨hfound, fun _ _ => mem_occurrences_iff, pairwise_occurrences n⟩, fun level => ?_,
    fun kind => ?_⟩
  · obtain ⟨text, htext, -⟩ := exists_outlineText_eq hwritable level
    refine ⟨text, (n.outline level).map String.toList, htext, lines_outlineText htext, ?_, ?_, ?_⟩
    · rw [List.length_map, outline_eq_map, List.length_map, hfound, List.length_map]
    · exact List.forall_mem_map.mpr fun _ hline => printable_of_mem_outline hline
    · intro k m hk
      rw [hfound, List.getElem?_map, Option.map_eq_some_iff] at hk
      obtain ⟨⟨path, m⟩, hk, rfl⟩ := hk
      have hm := mem_occurrences_iff.mp (List.mem_of_getElem? hk)
      obtain ⟨text', htext', hfirst⟩ :=
        exists_outlineText_eq (writable_of_descend? hwritable hm) (level + path.length)
      refine ⟨path, text', hk, htext', ?_⟩
      rw [hfirst, outline_eq_map, List.map_map, List.getElem?_map, hk]
      rfl
  · rw [hfound, findAll_eq_filter]

/-- The same integer occurs twice, and a text with a line feed does not break its line. -/
theorem outline_follows_search_repeated :
    let n := block [assign "x" (binary .add (int 1) (int 1)), str "it's\n"]
    (∀ path value, n.descend? path = some (.int value) → WithinLimit value) ∧
      n.findAll (isKind "IntLiteral") = [int 1, int 1] ∧
      ∃ text rows, n.outlineText? (-1) = some text ∧ lines text.toList = rows ++ [[]] ∧
        rows.length = 6 := by
  intro n
  have hone : numeral? 1 = Option.some "1" := by decide +kernel
  have hn : ∀ path value, n.descend? path = some (.int value) → WithinLimit value :=
    writable_iff.mp (by simp [n, writable, findAll_eq, children, isOverlong, hone])
  have hfound : n.findAll (isKind anyKind) =
      [n, assign "x" (binary .add (int 1) (int 1)), binary .add (int 1) (int 1), int 1, int 1,
        str "it's\n"] := by
    simp [n, findAll_eq, children, isKind]
  obtain ⟨-, hlines, hkind⟩ := outline_follows_search n hn
  obtain ⟨text, rows, htext, hrows, hlength, -⟩ := hlines (-1)
  refine ⟨hn, ?_, text, rows, htext, hrows, ?_⟩
  · rw [hkind, hfound]
    rfl
  · rw [hlength, hfound]
    rfl

end Kestrel.Node
