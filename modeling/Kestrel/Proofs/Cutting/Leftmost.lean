import Mathlib.Data.List.Infix
import Mathlib.Order.Bounds.Basic
import Kestrel.Value.Operations

/-!
# Texts are cut at the first delimiters

A text that is cut at a delimiter can be put together again, and where it is cut follows from the text
alone: at the first place where the delimiter stands, and from behind there in the same way. Delimiters may
overlap themselves, so there can be several ways to write a text as pieces with delimiters between them, but
only one of them is cut from the left.

* `Occurs`, `pieceStart` — the places where a delimiter stands, and those where pieces start;
* `LeftmostCut`, `leftmostCut_cons_iff` — the pieces of a text that is cut from the left, one by one;
* `LeftmostCut.eq` — there is only one such cut;
* `leftmostCut_cutAt` — the scan makes it;
* `Value.split_cuts_leftmost` — the pieces of any text at any delimiter.
-/

namespace Kestrel.Text

variable {delim cs rest p : List Char} {ps qs : List (List Char)} {i m n : Nat}

/-! ### Places -/

/-- The delimiter stands at a place of the text. -/
def Occurs (delim cs : List Char) (n : Nat) : Prop := delim <+: cs.drop n

/-- The places from `i` on where the delimiter stands. -/
def occurrencesFrom (delim cs : List Char) (i : Nat) : Set Nat := {n | i ≤ n ∧ Occurs delim cs n}

theorem infix_iff_exists_occurs :
    delim <:+: cs ↔ ∃ n, n + delim.length ≤ cs.length ∧ Occurs delim cs n := by
  constructor
  · rintro ⟨front, back, rfl⟩
    refine ⟨front.length, by simp, back, ?_⟩
    rw [List.append_assoc, List.drop_left]
  · rintro ⟨n, -, h⟩
    exact h.isInfix.trans (List.drop_suffix n cs).isInfix

theorem occurs_add : Occurs delim cs (m + n) ↔ Occurs delim (cs.drop m) n := by
  rw [Occurs, Occurs, List.drop_drop]

/-- What stands in front of a place does not matter to the first delimiter from there on. -/
theorem isLeast_occurrencesFrom_add :
    IsLeast (occurrencesFrom delim cs (m + i)) (m + n) ↔
      IsLeast (occurrencesFrom delim (cs.drop m) i) n := by
  constructor
  · rintro ⟨⟨hle, hoccurs⟩, hleast⟩
    refine ⟨⟨Nat.le_of_add_le_add_left hle, occurs_add.mp hoccurs⟩, fun k ⟨hik, hk⟩ => ?_⟩
    exact Nat.le_of_add_le_add_left (hleast ⟨Nat.add_le_add_left hik m, occurs_add.mpr hk⟩)
  · rintro ⟨⟨hle, hoccurs⟩, hleast⟩
    refine ⟨⟨Nat.add_le_add_left hle m, occurs_add.mpr hoccurs⟩, fun k ⟨hik, hk⟩ => ?_⟩
    obtain ⟨k, rfl⟩ := Nat.exists_eq_add_of_le (Nat.le_trans (Nat.le_add_right m i) hik)
    exact Nat.add_le_add_left (hleast ⟨Nat.le_of_add_le_add_left hik, occurs_add.mp hk⟩) m

/-- Where the piece with the number `k` starts: behind the pieces before it and the delimiters behind each
of them. -/
def pieceStart (delim : List Char) (ps : List (List Char)) (k : Nat) : Nat :=
  ((ps.take k).flatMap (· ++ delim)).length

theorem pieceStart_zero (delim : List Char) (ps : List (List Char)) : pieceStart delim ps 0 = 0 := rfl

theorem pieceStart_cons (delim p : List Char) (ps : List (List Char)) (k : Nat) :
    pieceStart delim (p :: ps) (k + 1) = p.length + delim.length + pieceStart delim ps k := by
  rw [pieceStart, List.take_succ_cons, List.flatMap_cons, List.length_append, List.length_append,
    pieceStart]

/-- Behind the first piece and its delimiter the places are those of the text that follows. -/
theorem drop_pieceStart_cons (p rest : List Char) (ps : List (List Char)) (k : Nat) :
    (p ++ (delim ++ rest)).drop (pieceStart delim (p :: ps) (k + 1)) =
      rest.drop (pieceStart delim ps k) := by
  rw [pieceStart_cons, ← List.drop_drop, ← List.drop_drop, List.drop_left, List.drop_left]

theorem isLeast_pieceStart_cons (p rest : List Char) (ps : List (List Char)) (k : Nat) :
    IsLeast (occurrencesFrom delim (p ++ (delim ++ rest)) (pieceStart delim (p :: ps) (k + 1)))
        (pieceStart delim (p :: ps) (k + 1) + n) ↔
      IsLeast (occurrencesFrom delim rest (pieceStart delim ps k)) (pieceStart delim ps k + n) := by
  rw [pieceStart_cons, Nat.add_assoc (p.length + delim.length), isLeast_occurrencesFrom_add,
    ← List.drop_drop, List.drop_left, List.drop_left]

/-! ### Cuts -/

/-- The pieces of a text that is cut at a delimiter from the left. -/
structure LeftmostCut (delim cs : List Char) (ps : List (List Char)) : Prop where
  /-- there is a piece -/
  ne_nil : ps ≠ []
  /-- with the delimiter between them the pieces make the text -/
  joined : delim.intercalate ps = cs
  /-- no piece contains the delimiter -/
  clear : ∀ p ∈ ps, ¬delim <:+: p
  /-- every piece stands in the text where it starts -/
  stands : ∀ k p, ps[k]? = some p → p <+: cs.drop (pieceStart delim ps k)
  /-- a piece with another one behind it goes up to the first delimiter from its start on, and the other
  one starts right behind that delimiter -/
  first : ∀ k p q, ps[k]? = some p → ps[k + 1]? = some q →
    IsLeast (occurrencesFrom delim cs (pieceStart delim ps k)) (pieceStart delim ps k + p.length) ∧
      pieceStart delim ps (k + 1) = pieceStart delim ps k + p.length + delim.length

theorem leftmostCut_singleton (h : ¬delim <:+: cs) : LeftmostCut delim cs [cs] where
  ne_nil := List.cons_ne_nil cs []
  joined := List.intercalate_singleton
  clear := List.forall_mem_singleton.mpr h
  stands k p hp := by
    cases k with
    | zero => exact Option.some.inj hp ▸ List.prefix_rfl
    | succ k => cases hp
  first k p q _ hq := by cases hq

/-- A piece that goes up to the first delimiter does not contain the delimiter. -/
theorem not_infix_of_isLeast (hdelim : delim ≠ [])
    (h : IsLeast (occurrencesFrom delim (p ++ rest) 0) p.length) : ¬delim <:+: p := by
  rintro hinfix
  obtain ⟨n, hn, hoccurs⟩ := infix_iff_exists_occurs.mp hinfix
  have hpos := List.length_pos_iff.mpr hdelim
  have hoccurs' : Occurs delim (p ++ rest) n := by
    rw [Occurs, List.drop_append_of_le_length (by omega)]
    exact List.IsPrefix.trans hoccurs (List.prefix_append _ rest)
  have hle := h.2 ⟨Nat.zero_le n, hoccurs'⟩
  omega

/-- A text is cut from the left if its first piece goes up to the first delimiter and what is behind that
delimiter is cut from the left. -/
theorem leftmostCut_cons_iff (hdelim : delim ≠ []) (hps : ps ≠ []) :
    LeftmostCut delim cs (p :: ps) ↔
      ∃ rest, cs = p ++ (delim ++ rest) ∧ IsLeast (occurrencesFrom delim cs 0) p.length ∧
        LeftmostCut delim rest ps := by
  have hjoin : delim.intercalate (p :: ps) = p ++ (delim ++ delim.intercalate ps) := by
    rw [List.intercalate_cons_of_ne_nil hps, List.append_assoc]
  constructor
  · intro h
    obtain ⟨q, ps', rfl⟩ := List.exists_cons_of_ne_nil hps
    have hcs : cs = p ++ (delim ++ delim.intercalate (q :: ps')) := by rw [← h.joined, hjoin]
    refine ⟨delim.intercalate (q :: ps'), hcs, ?_, hps, rfl, ?_, ?_, ?_⟩
    · have hfirst := (h.first 0 p q rfl rfl).1
      rwa [pieceStart_zero, Nat.zero_add] at hfirst
    · exact fun p hp => h.clear p (List.mem_cons_of_mem _ hp)
    · intro k p' hp'
      have hstands := h.stands (k + 1) p' hp'
      rwa [hcs, drop_pieceStart_cons] at hstands
    · intro k p' q' hp' hq'
      obtain ⟨hleast, hnext⟩ := h.first (k + 1) p' q' hp' hq'
      rw [hcs, isLeast_pieceStart_cons] at hleast
      rw [pieceStart_cons delim p, pieceStart_cons delim p] at hnext
      exact ⟨hleast, by omega⟩
  · rintro ⟨rest, rfl, hleast, h⟩
    refine ⟨List.cons_ne_nil p ps, ?_, ?_, ?_, ?_⟩
    · rw [hjoin, h.joined]
    · exact List.forall_mem_cons.mpr ⟨not_infix_of_isLeast hdelim hleast, h.clear⟩
    · intro k p' hp'
      cases k with
      | zero =>
        obtain rfl := Option.some.inj hp'
        exact List.prefix_append _ _
      | succ k =>
        rw [drop_pieceStart_cons]
        exact h.stands k p' hp'
    · intro k p' q' hp' hq'
      cases k with
      | zero =>
        obtain rfl := Option.some.inj hp'
        rw [pieceStart_zero, pieceStart_cons, pieceStart_zero, Nat.zero_add]
        exact ⟨hleast, rfl⟩
      | succ k =>
        obtain ⟨hleast', hnext⟩ := h.first k p' q' hp' hq'
        refine ⟨(isLeast_pieceStart_cons p rest ps k).mpr hleast', ?_⟩
        rw [pieceStart_cons, pieceStart_cons]
        omega

/-- The first piece is the only one exactly if the delimiter does not stand in the text. -/
theorem LeftmostCut.eq_singleton_iff (h : LeftmostCut delim cs (p :: ps)) (hdelim : delim ≠ []) :
    ps = [] ↔ ¬delim <:+: cs := by
  constructor
  · rintro rfl
    rw [← h.joined, List.intercalate_singleton]
    exact h.clear p List.mem_cons_self
  · intro hnone
    by_contra hps
    obtain ⟨rest, rfl, -⟩ := (leftmostCut_cons_iff hdelim hps).mp h
    exact hnone ⟨p, rest, by rw [List.append_assoc]⟩

/-- There is only one way to cut a text from the left. -/
theorem LeftmostCut.eq (hdelim : delim ≠ []) (hps : LeftmostCut delim cs ps)
    (hqs : LeftmostCut delim cs qs) : ps = qs := by
  induction ps generalizing cs qs with
  | nil => exact absurd rfl hps.ne_nil
  | cons p ps ih =>
    obtain ⟨q, qs, rfl⟩ := List.exists_cons_of_ne_nil hqs.ne_nil
    have hcut : ps = [] ↔ qs = [] :=
      (hps.eq_singleton_iff hdelim).trans (hqs.eq_singleton_iff hdelim).symm
    by_cases hnil : ps = []
    · have hp := hps.joined
      have hq := hqs.joined
      rw [hnil, List.intercalate_singleton] at hp
      rw [hcut.mp hnil, List.intercalate_singleton] at hq
      rw [hnil, hcut.mp hnil, hp, hq]
    · obtain ⟨rest, hcs, hleast, hrest⟩ := (leftmostCut_cons_iff hdelim hnil).mp hps
      obtain ⟨rest', hcs', hleast', hrest'⟩ := (leftmostCut_cons_iff hdelim (mt hcut.mpr hnil)).mp hqs
      obtain ⟨rfl, hsame⟩ := List.append_inj (hcs ▸ hcs') (hleast.unique hleast')
      obtain rfl := List.append_cancel_left hsame
      rw [ih hrest hrest']

/-! ### The scan -/

/-- What is left of the text when the first characters are passed over is cut from the left, together with
the characters already read, if no delimiter starts in these. -/
theorem leftmostCut_cutAt (hdelim : delim ≠ []) (skip : Nat) (done cs : List Char)
    (hdone : ∀ n < done.length, ¬Occurs delim (done.reverse ++ cs.drop skip) n) :
    LeftmostCut delim (done.reverse ++ cs.drop skip) (cutAt delim skip done cs) := by
  fun_induction cutAt delim skip done cs with
  | case1 skip done =>
    rw [List.drop_nil, List.append_nil] at hdone ⊢
    refine leftmostCut_singleton fun hinfix => ?_
    obtain ⟨n, hn, hoccurs⟩ := infix_iff_exists_occurs.mp hinfix
    have hpos := List.length_pos_iff.mpr hdelim
    rw [List.length_reverse] at hn
    exact hdone n (by omega) hoccurs
  | case2 done skip c cs ih => exact ih hdone
  | case3 done c cs hprefix ih =>
    -- the delimiter stands here, and its other characters are passed over
    obtain ⟨rest, hrest⟩ := List.isPrefixOf_iff_prefix.mp hprefix
    have hpast : cs.drop (delim.length - 1) = rest := by
      obtain ⟨d, ds, rfl⟩ := List.exists_cons_of_ne_nil hdelim
      obtain ⟨-, rfl⟩ := List.cons.inj hrest
      exact List.drop_left
    rw [hpast] at ih
    have hcut : LeftmostCut delim rest (cutAt delim (delim.length - 1) [] cs) := ih nofun
    rw [List.drop_zero, ← hrest] at hdone ⊢
    refine (leftmostCut_cons_iff hdelim hcut.ne_nil).mpr ⟨rest, rfl, ⟨⟨Nat.zero_le _, ?_⟩, ?_⟩, hcut⟩
    · rw [Occurs, List.drop_left]
      exact List.prefix_append delim rest
    · rintro n ⟨-, hn⟩
      rw [List.length_reverse]
      exact Nat.le_of_not_lt fun hlt => hdone n hlt hn
  | case4 done c cs hprefix ih =>
    have htext : (c :: done).reverse ++ cs.drop 0 = done.reverse ++ (c :: cs).drop 0 := by simp
    rw [htext] at ih
    refine ih fun n hn => ?_
    obtain hlt | rfl := Nat.lt_succ_iff_lt_or_eq.mp hn
    · exact hdone n hlt
    · rw [Occurs, ← List.length_reverse, List.drop_left, List.drop_zero, ← List.isPrefixOf_iff_prefix]
      exact hprefix

/-! ### Pieces -/

/-- With a delimiter that is not empty the pieces are those of the cut from the left. -/
theorem leftmostCut_iff (hdelim : delim ≠ []) :
    LeftmostCut delim cs ps ↔ ps = pieces delim cs := by
  have hcut : LeftmostCut delim cs (pieces delim cs) := by
    rw [pieces, if_neg hdelim]
    exact leftmostCut_cutAt hdelim 0 [] cs nofun
  exact ⟨fun h => h.eq hdelim hcut, fun h => h ▸ hcut⟩

/-- The empty delimiter stands between all characters, and at both ends. -/
theorem pieces_nil (cs : List Char) : pieces [] cs = [] :: cs.map ([·]) ++ [[]] := if_pos rfl

theorem nil_intercalate (ps : List (List Char)) : List.intercalate [] ps = ps.flatten := by
  induction ps with
  | nil => rfl
  | cons p ps ih =>
    cases ps with
    | nil => rw [List.intercalate_singleton, List.flatten_singleton]
    | cons q ps =>
      rw [List.intercalate_cons_cons, List.append_nil, ih]
      rfl

/-- Pieces can be put together again. -/
theorem intercalate_pieces (delim cs : List Char) : delim.intercalate (pieces delim cs) = cs := by
  by_cases hdelim : delim = []
  · rw [hdelim, pieces_nil, nil_intercalate, List.cons_append, List.flatten_cons, List.flatten_append,
      ← List.flatMap_def, List.flatMap_singleton', List.flatten_singleton, List.nil_append,
      List.append_nil]
  · exact ((leftmostCut_iff hdelim).mpr rfl).joined

end Kestrel.Text

namespace Kestrel

open Text

/-- A text is cut without loss, and from the left. The pieces of a text at a delimiter, with the delimiter
between them, make the text. If the delimiter is not empty they are the pieces of the one cut in which no
piece contains the delimiter, and each piece but the last goes from its start to the first delimiter from
there on, and the next piece starts right behind that. If the delimiter is empty they are an empty text,
each character, and an empty text. -/
theorem Value.split_cuts_leftmost (text delimiter : String) :
    let cs := text.toList
    let delim := delimiter.toList
    let ps := pieces delim cs
    Value.split (.str text) (.str delimiter) = .ok (.list (ps.map fun p => .str (String.ofList p))) ∧
      delim.intercalate ps = cs ∧
      (delim ≠ [] → ∀ qs, LeftmostCut delim cs qs ↔ qs = ps) ∧
      (delim = [] → ps = [] :: cs.map ([·]) ++ [[]]) := by
  intro cs delim ps
  refine ⟨rfl, intercalate_pieces delim cs, fun hdelim qs => leftmostCut_iff hdelim, fun hdelim => ?_⟩
  have hps : ps = pieces [] cs := by rw [← hdelim]
  rw [hps, pieces_nil]

/-- A delimiter that overlaps itself in the text, and the empty one. -/
theorem Value.split_cuts_leftmost_overlapping :
    (['a', 'b', 'a'] ≠ [] ∧
      ∀ qs, LeftmostCut ['a', 'b', 'a'] "abababa".toList qs ↔ qs = [[], ['b'], []]) ∧
      pieces [] "ab".toList = [[], ['a'], ['b'], []] := by
  have hpieces : pieces "aba".toList "abababa".toList = [[], ['b'], []] := by decide
  have hcut := (Value.split_cuts_leftmost "abababa" "aba").2.2.1 (by decide)
  rw [hpieces] at hcut
  exact ⟨⟨by decide, hcut⟩, (Value.split_cuts_leftmost "ab" "").2.2.2 rfl⟩

end Kestrel
