import Kestrel.Proofs.Formulas.Order
import Kestrel.Proofs.Formulas.Text
import Kestrel.Proofs.Lockstep.Lexical
import Kestrel.Proofs.Lockstep.Text

/-!
# One formula, two readers

What stands in a placeholder is read from the left; the same text as an expression of the language is
read by the levels of its operators. Both readers accept every formula, and they make the same tree of
it exactly if no product stands behind a sum.

* `Closed` — no operand goes on with such a text, and no call starts with it;
* `stripped_spellLinks`, `operand_eq`, `binaryOp_eq` — what the reader of expressions finds in a
  formula;
* `moves_links` — the machine reads one link after another;
* `read_eq_parse_iff` — the two trees.
-/

namespace Kestrel.Formulas

open Reader Text Template

/-! ### Between the pieces of a formula -/

/-- An operand ends in front of the text, and it is not called. -/
structure Closed (cs : List Char) : Prop where
  /-- no name goes on -/
  word : cs.head?.any isNameChar = false
  /-- no numeral goes on -/
  digit : cs.head?.any isDecimalDigit = false
  /-- no arguments follow -/
  paren : (stripped cs).head? ≠ some '('

theorem ne_of_isNameChar {c d : Char} (hc : isNameChar c = true) (hd : isNameChar d = false) :
    c ≠ d := by
  rintro rfl
  rw [hc] at hd
  cases hd

theorem opensLayout_of_isNameChar {c : Char} (h : isNameChar c = true) (cs : List Char) :
    opensLayout (c :: cs) = false := by
  refine opensLayout_cons.mpr ⟨Bool.eq_false_iff.mpr fun hgap => ?_, startsComment_of_ne ?_⟩
  · simp only [isGap, Bool.or_eq_true, decide_eq_true_eq] at hgap
    rcases hgap with ((rfl | rfl) | rfl) | rfl <;> cases h
  · exact ne_of_isNameChar h rfl

/-- A space in front is passed over. -/
theorem stripped_gap {space : Bool} {cs : List Char} (h : opensLayout cs = false) :
    stripped (gap space ++ cs) = cs := by
  cases space with
  | false => exact stripped_of_opensLayout_eq_false h
  | true => exact (stripped_blank rfl cs).trans (stripped_of_opensLayout_eq_false h)

section Pieces

variable {bound : String → Bool} {x : Operand} {l : Link} {links : List Link}

theorem Operand.Valid.exists_cons (h : x.Valid bound) :
    ∃ c cs, x.spell = c :: cs ∧ isNameChar c = true := by
  have hne : x.spell ≠ [] := by
    cases x with
    | int digits => exact h.1
    | var name =>
      obtain ⟨x, xs, hname, -⟩ := Written.exists_cons_of_isName h.1
      rw [Operand.spell, hname]
      exact List.cons_ne_nil x xs
  obtain ⟨c, cs, hcs⟩ := List.exists_cons_of_ne_nil hne
  exact ⟨c, cs, hcs, h.isNameChar_of_mem (hcs ▸ List.mem_cons_self)⟩

/-- What stands behind the operator of a link. -/
def behindOperator (l : Link) (links : List Link) : List Char :=
  gap l.spaceAfter ++ (l.operand.spell ++ spellLinks links)

theorem stripped_behindOperator (h : l.operand.Valid bound) (links : List Link) :
    stripped (behindOperator l links) = l.operand.spell ++ spellLinks links := by
  obtain ⟨c, cs, hspell, hc⟩ := h.exists_cons
  rw [behindOperator, hspell]
  exact stripped_gap (opensLayout_of_isNameChar hc _)

/-- Behind an operator there is a space or an operand. -/
theorem head?_behindOperator (h : l.operand.Valid bound) (links : List Link) {c : Char}
    (hc : isNameChar c = false) (hspace : c ≠ ' ') : (behindOperator l links).head? ≠ some c := by
  obtain ⟨d, cs, hspell, hd⟩ := h.exists_cons
  rw [behindOperator, hspell]
  cases l.spaceAfter with
  | false => exact fun heq => ne_of_isNameChar hd hc (Option.some.inj heq)
  | true => exact fun heq => hspace (Option.some.inj heq).symm

theorem spellLinks_cons (l : Link) (links : List Link) :
    spellLinks (l :: links) =
      gap l.spaceBefore ++ (l.op.symbol.toList ++ behindOperator l links) := by
  simp [spellLinks, Link.spell, behindOperator]

theorem stripped_spellLinks (h : l.Valid bound) (links : List Link) :
    stripped (spellLinks (l :: links)) = l.op.symbol.toList ++ behindOperator l links := by
  have hslash := head?_behindOperator h.operand links (c := '/') rfl (by decide)
  rw [spellLinks_cons]
  refine stripped_gap ?_
  generalize behindOperator l links = cs at hslash
  have hcomment : startsComment ('/' :: cs) = false := by
    cases cs with
    | nil => rfl
    | cons c cs =>
      have hc : c ≠ '/' := fun hc => hslash (congrArg some hc)
      simp [startsComment, hc]
  obtain hop | hop | hop | hop := arithmetic_cases h.op <;> rw [hop]
  case inr.inr.inr => exact opensLayout_cons.mpr ⟨rfl, hcomment⟩
  all_goals exact opensLayout_cons.mpr ⟨rfl, startsComment_of_ne (by decide)⟩

theorem closed_spellLinks (h : ∀ l ∈ links, l.Valid bound) : Closed (spellLinks links) := by
  cases links with
  | nil => exact ⟨rfl, rfl, nofun⟩
  | cons l links =>
    have hl := h l List.mem_cons_self
    have hparen : (stripped (spellLinks (l :: links))).head? ≠ some '(' := by
      rw [stripped_spellLinks hl]
      obtain hop | hop | hop | hop := arithmetic_cases hl.op <;> rw [hop] <;> nofun
    rw [spellLinks_cons] at hparen ⊢
    generalize l.spaceBefore = space at hparen ⊢
    cases space with
    | true => exact ⟨rfl, rfl, hparen⟩
    | false =>
      obtain hop | hop | hop | hop := arithmetic_cases hl.op <;> rw [hop] at hparen ⊢ <;>
        exact ⟨rfl, rfl, hparen⟩

end Pieces

/-! ### Tokens in a formula -/

section Tokens

variable {c : Cursor} {bound : String → Bool} {tail : List Char}

theorem takeWhile_append_of_head? {p : Char → Bool} {cs : List Char} (hcs : ∀ d ∈ cs, p d = true)
    (htail : tail.head?.any p = false) : (cs ++ tail).takeWhile p = cs := by
  have hnone : tail.takeWhile p = [] := by
    cases tail with
    | nil => rfl
    | cons d ds => exact List.takeWhile_cons_of_neg (Bool.eq_false_iff.mp htail)
  rw [List.takeWhile_append_of_pos hcs, hnone, List.append_nil]

theorem rest_advance_append {cs : List Char} (h : c.skip.rest = cs ++ tail) :
    (c.skip.advance cs.length).rest = tail := by
  rw [Cursor.advance, h, List.drop_left]

theorem integer_eq {digits : List Char} (hvalid : (Operand.int digits).Valid bound)
    (hc : c.skip.rest = digits ++ tail) (htail : Closed tail) :
    integer c = .ok (Written.digitsValue digits) (c.skip.advance digits.length) := by
  obtain ⟨hne, hdigits, hlength⟩ := hvalid
  have hdecimal : ∀ d ∈ digits, isDecimalDigit d = true :=
    fun d hd => isDecimalDigit_of_isDigit (hdigits d hd)
  have hcount := Written.length_filterMap_decimalDigit (List.all_eq_true.mpr hdecimal)
  rw [integer, hc, takeWhile_append_of_head? hdecimal htail.digit]
  split
  next hnil =>
    rw [hnil] at hcount
    exact absurd (List.length_eq_zero_iff.mp hcount.symm) hne
  next ds _ =>
    rw [ofDigits?, if_pos (hcount ▸ hlength), Written.digitsValue, hcount]

section Name

variable {name : String} (hname : Written.isName name.toList = true)
  (hc : c.skip.rest = name.toList ++ tail) (htail : Closed tail)
include hname hc

theorem exists_nameStart : ∃ x xs, c.skip.rest = x :: xs ∧ isNameStart x = true := by
  obtain ⟨x, xs, hcs, hstart⟩ := Written.exists_cons_of_isName hname
  exact ⟨x, xs ++ tail, by rw [hc, hcs, List.cons_append], hstart⟩

theorem integer_eq_no : integer c = .no := by
  obtain ⟨x, xs, hrest, hx⟩ := exists_nameStart hname hc
  have hdigit : ¬isDecimalDigit x = true := by
    rw [Written.not_isDecimalDigit_of_isNameStart hx]
    nofun
  rw [integer, hrest, List.takeWhile_cons_of_neg hdigit]
  rfl

include htail

theorem takeWhile_name : c.skip.rest.takeWhile isNameChar = name.toList := by
  rw [hc, takeWhile_append_of_head? (Written.isNameChar_of_isName hname) htail.word]

/-- A keyword would be the whole name. -/
theorem keywordAt_eq_false (k : Keyword) : keywordAt k c.skip = false := by
  have htake := takeWhile_name hname hc htail
  rw [keywordAt]
  by_contra hk
  rw [Bool.not_eq_false, Bool.and_eq_true, Bool.and_eq_true] at hk
  obtain ⟨⟨hstarts, -⟩, hend⟩ := hk
  obtain ⟨more, hmore⟩ := List.isPrefixOf_iff_prefix.mp hstarts
  rw [← hmore, List.drop_left] at hend
  have hword : more.head?.any isNameChar = false := by
    cases more with
    | nil => rfl
    | cons d ds =>
      rw [Bool.not_eq_true'] at hend
      exact (Bool.or_eq_false_iff.mp hend).1
  rw [← hmore, takeWhile_append_of_head? (Written.isNameChar_keyword k) hword] at htake
  exact Written.keyword_ne_name hname k htake.symm

theorem identifier_eq :
    identifier c = .ok name (c.skip.advance name.toList.length) := by
  obtain ⟨x, xs, hrest, hx⟩ := exists_nameStart hname hc
  have hstart : c.skip.rest.head?.any isNameStart = true := by
    rw [hrest]
    exact hx
  have hany : anyKeywordAt c.skip = false :=
    List.any_eq_false.mpr fun k _ => by rw [keywordAt_eq_false hname hc htail]; nofun
  rw [identifier, hstart, hany, takeWhile_name hname hc htail, if_pos (by decide)]
  dsimp only
  rw [String.ofList_toList]

end Name

/-- The operand that stands at the position. -/
theorem operand_eq {x : Operand} (hx : x.Valid bound) (hc : c.skip.rest = x.spell ++ tail)
    (htail : Closed tail) (expression : Rule Node) (n : Nat) :
    ∃ c', operand expression n c = .ok x.formula.toNode c' ∧ c'.rest = tail := by
  refine ⟨c.skip.advance x.spell.length, ?_, rest_advance_append hc⟩
  cases x with
  | int digits =>
    simp only [operand, operandForms, Rule.oneOf, Rule.orElse, Rule.bind_run, integer_eq hx hc htail]
    rfl
  | var name =>
    obtain ⟨hname, -⟩ := hx
    have hstring : string c = .no := by
      obtain ⟨y, ys, hrest, hy⟩ := exists_nameStart hname hc
      refine string_eq_no ?_
      rw [hrest]
      rintro ⟨⟩
      cases hy
    have hkeyword (k : Keyword) : keyword k c = .no := by
      rw [keyword, keywordAt_eq_false hname hc htail]
      rfl
    have hparen : symbol "(" (c.skip.advance name.toList.length) = .no := by
      have hbehind : (c.skip.advance name.toList.length).rest = tail := rest_advance_append hc
      refine symbol_eq_no (x := '(') rfl ?_
      rw [skip_rest, hbehind]
      exact htail.paren
    simp only [operand, operandForms, Rule.oneOf, Rule.orElse, Rule.bind_run, integer_eq_no hname hc,
      hstring, hkeyword, identifier_eq hname hc htail, hparen]
    rfl

theorem binaryOp_eq {op : BinaryOp} (hop : op ∈ arithmetic)
    (hc : c.skip.rest = op.symbol.toList ++ tail) (htail : tail.head? ≠ some '+') :
    binaryOp c = .ok op (c.skip.advance op.symbol.toList.length) := by
  have hplus : ['+'].isPrefixOf tail = false :=
    Bool.eq_false_iff.mpr fun h => htail (head?_of_isPrefixOf (by decide) h)
  rw [binaryOp, hc]
  obtain rfl | rfl | rfl | rfl := arithmetic_cases hop
  case inl => simp [operatorsBySymbol, BinaryOp.symbol, List.isPrefixOf, hplus]
  all_goals simp [operatorsBySymbol, BinaryOp.symbol, List.isPrefixOf]

end Tokens

/-! ### The machine in a formula -/

section Machine

variable {bound : String → Bool} (expression : Rule Node) (n : Nat)

theorem step_operand {x : Operand} (hx : x.Valid bound) {tail : List Char} (htail : Closed tail)
    {c : Cursor} (hc : stripped c.rest = x.spell ++ tail) (stack : List Pending) :
    ∃ c', Chain.step (operand expression n) ⟨stack, 0, none, c⟩ =
        .more ⟨stack, 0, some x.formula.toNode, c'⟩ ∧ c'.rest = tail := by
  rw [← skip_rest] at hc
  obtain ⟨d, ds, hspell, hd⟩ := hx.exists_cons
  have hhead : c.skip.rest.head? = some d := by rw [hc, hspell, List.cons_append, List.head?_cons]
  have hne {a : Char} (ha : isNameChar a = false) : c.skip.rest.head? ≠ some a := by
    rw [hhead]
    exact fun heq => ne_of_isNameChar hd ha (Option.some.inj heq)
  obtain ⟨c', hoperand, hrest⟩ := operand_eq hx hc htail expression n
  refine ⟨c', ?_, hrest⟩
  simp only [Chain.step, Chain.stepOperand, unaryOp_eq_no (hne rfl) (hne rfl), hoperand]

theorem step_operator {l : Link} (hl : l.Valid bound) {links : List Link} {c : Cursor}
    (hc : c.rest = spellLinks (l :: links)) (stack : List Pending) (e : Node) :
    ∃ c', Chain.step (operand expression n) ⟨stack, 0, some e, c⟩ =
        .more ⟨.binary l.op (settle (l.op.level - 1) stack e).2 :: (settle (l.op.level - 1) stack e).1,
          0, none, c'⟩ ∧ c'.rest = behindOperator l links := by
  have hrest : c.skip.rest = l.op.symbol.toList ++ behindOperator l links := by
    rw [skip_rest, hc, stripped_spellLinks hl]
  have hcolon : symbol ":" c = .no := by
    refine symbol_eq_no (x := ':') rfl ?_
    rw [hrest]
    obtain hop | hop | hop | hop := arithmetic_cases hl.op <;> rw [hop] <;> nofun
  have hbinary := binaryOp_eq hl.op hrest (head?_behindOperator hl.operand links rfl (by decide))
  refine ⟨_, ?_, rest_advance_append hrest⟩
  simp only [Chain.step, Chain.stepOperator, if_pos, hcolon, hbinary]

/-- The operators of links, each with its operand as a node. -/
def terms (links : List Link) : Terms := links.map fun l => (l.op, l.operand.formula.toNode)

/-- Each link takes two steps. -/
theorem moves_links {links : List Link} (hlinks : ∀ l ∈ links, l.Valid bound) {c : Cursor}
    (hc : c.rest = spellLinks links) (s : List Pending × Node) :
    ∃ c', Written.Moves (operand expression n) (2 * links.length) ⟨s.1, 0, some s.2, c⟩
        ⟨((terms links).foldl take s).1, 0, some ((terms links).foldl take s).2, c'⟩ ∧ c'.rest = [] := by
  induction links generalizing c s with
  | nil => exact ⟨c, fun bound => congrArg (Chain.run _ · _) (Nat.zero_add bound), hc⟩
  | cons l links ih =>
    obtain ⟨hl, hlinks⟩ := List.forall_mem_cons.mp hlinks
    obtain ⟨c₁, hoperator, hc₁⟩ := step_operator expression n hl hc s.1 s.2
    have hbehind : stripped c₁.rest = l.operand.spell ++ spellLinks links := by
      rw [hc₁, stripped_behindOperator hl.operand]
    obtain ⟨c₂, hoperand, hc₂⟩ :=
      step_operand expression n hl.operand (closed_spellLinks hlinks) hbehind _
    obtain ⟨c₃, hmoves, hc₃⟩ := ih hlinks hc₂ (take s (l.op, l.operand.formula.toNode))
    have hlink := ((Written.Moves.step hoperator).trans (.step hoperand)).trans hmoves
    refine ⟨c₃, ?_, hc₃⟩
    rw [List.length_cons, show 2 * (links.length + 1) = 1 + 1 + 2 * links.length by omega]
    exact hlink

end Machine

/-! ### The two trees -/

section Trees

variable {bound : String → Bool} {first : Operand} {links : List Link}

theorem toNode_fromLeft (first : Operand) (links : List Link) :
    (fromLeft first links).toNode = leftTree first.formula.toNode (terms links) := by
  induction links using List.reverseRecOn with
  | nil => rfl
  | append_singleton links l ih =>
    have hterms : terms (links ++ [l]) = terms links ++ [(l.op, l.operand.formula.toNode)] :=
      List.map_append
    rw [fromLeft_concat, Formula.toNode, ih, hterms, leftTree_concat]

theorem arithmetic_terms (hlinks : ∀ l ∈ links, l.Valid bound) : Arithmetic (terms links) := by
  intro t ht
  obtain ⟨l, hl, rfl⟩ := List.mem_map.mp ht
  dsimp only
  obtain hop | hop | hop | hop := arithmetic_cases (hlinks l hl).op <;> rw [hop] <;> decide

theorem mem_sums_iff {op : BinaryOp} : op ∈ [.add, .sub] ↔ op.level = sumLevel := by
  cases op <;> decide

theorem mem_products_iff {op : BinaryOp} : op ∈ [.mul, .div] ↔ op.level = productLevel := by
  cases op <;> decide

/-- A link has at least two characters. -/
theorem length_spell (hfirst : first.Valid bound) (hlinks : ∀ l ∈ links, l.Valid bound) :
    2 * links.length + 1 ≤ (spell first links).length := by
  have hoperand {x : Operand} (h : x.Valid bound) : 1 ≤ x.spell.length := by
    obtain ⟨c, cs, hspell, -⟩ := h.exists_cons
    rw [hspell, List.length_cons]
    omega
  have hlength : 2 * links.length ≤ (spellLinks links).length := by
    induction links with
    | nil => exact Nat.le_refl _
    | cons l links ih =>
      obtain ⟨hl, hlinks⟩ := List.forall_mem_cons.mp hlinks
      obtain ⟨c, hsymbol, -⟩ := operator?_symbol hl.op
      have hl := hoperand hl.operand
      have hlinks := ih hlinks
      rw [spellLinks_cons, behindOperator, hsymbol]
      simp only [List.length_append, List.length_cons, List.length_nil]
      omega
  have hfirst := hoperand hfirst
  rw [spell, List.length_append]
  omega

theorem tab_not_mem_spell (hfirst : first.Valid bound) (hlinks : ∀ l ∈ links, l.Valid bound) :
    '\t' ∉ spell first links := by
  have hoperand {x : Operand} (h : x.Valid bound) : '\t' ∉ x.spell :=
    fun htab => absurd (h.isNameChar_of_mem htab) (by decide)
  have hgap (space : Bool) : '\t' ∉ gap space := by cases space <;> decide
  rw [spell, List.mem_append, not_or]
  refine ⟨hoperand hfirst, fun htab => ?_⟩
  obtain ⟨l, hl, htab⟩ := List.mem_flatMap.mp htab
  simp only [Link.spell, List.mem_append] at htab
  obtain htab | htab | htab | htab := htab
  · exact hgap _ htab
  · obtain hop | hop | hop | hop := arithmetic_cases (hlinks l hl).op <;> rw [hop] at htab <;>
      exact absurd htab (by decide)
  · exact hgap _ htab
  · exact hoperand (hlinks l hl).operand htab

/-- Behind the last operand the machine stops. -/
theorem step_end (expression : Rule Node) (n : Nat) {c : Cursor} (hc : c.rest = [])
    {stack : List Pending} {e e' : Node} (h : settle 0 stack e = ([], e')) :
    Chain.step (operand expression n) ⟨stack, 0, some e, c⟩ = .done e' c := by
  have hrest : c.skip.rest = [] := by
    rw [skip_rest, hc]
    rfl
  have hsymbol {s : String} {x : Char} (hs : s.toList.head? = some x) : symbol s c = .no :=
    symbol_eq_no hs (by rw [hrest]; nofun)
  have hbinary : binaryOp c = .no := by
    rw [binaryOp, hrest]
    rfl
  have hcolon : symbol ":" c = .no := hsymbol rfl
  have hquestion : symbol "?" c = .no := hsymbol rfl
  simp only [Chain.step, Chain.stepOperator, if_pos, hcolon, hbinary, hquestion]
  exact Written.finish_eq_done h

/-- As an expression, a formula is read by the levels of its operators. -/
theorem readExpression_spell (hfirst : first.Valid bound) (hlinks : ∀ l ∈ links, l.Valid bound) :
    readExpression (spell first links) =
      .ok (orderedTree first.formula.toNode (terms links)) := by
  obtain ⟨c, cs, hspell, hc⟩ := hfirst.exists_cons
  have hstart : stripped (Cursor.start (spell first links)).rest = first.spell ++ spellLinks links := by
    rw [Cursor.start, spell, hspell]
    exact stripped_of_opensLayout_eq_false (opensLayout_of_isNameChar hc _)
  have hlength := length_spell hfirst hlinks
  rw [readExpression_eq_ok_iff]
  obtain ⟨n, hn⟩ : ∃ n, readingBound (spell first links) = n + 1 := ⟨_, rfl⟩
  obtain ⟨c₁, hoperand, hc₁⟩ :=
    step_operand (expressionAt n) n hfirst (closed_spellLinks hlinks) hstart []
  obtain ⟨c₂, hmoves, hc₂⟩ := moves_links (expressionAt n) n hlinks hc₁ ([], first.formula.toNode)
  have hend := step_end (expressionAt n) n hc₂
    (settle_pending (arithmetic_terms hlinks) first.formula.toNode)
  have hstop (s : Chain.State) :
      Chain.Next.done (orderedTree first.formula.toNode (terms links)) c₂ ≠ .more s := by
    rintro ⟨⟩
  have hrest : c₂.skip.rest = [] := by
    rw [skip_rest, hc₂]
    rfl
  rw [pending] at hend
  refine ⟨c₂, ?_, hrest⟩
  obtain ⟨m, hm⟩ := Nat.exists_eq_add_of_le (show 1 + 2 * links.length + 1 ≤ n + 1 by
    rw [← hn, readingBound]
    omega)
  have hbound : n + 1 = 1 + 2 * links.length + (m + 1) := by omega
  rw [expressionAt, hn, chainAt_succ, Chain.start, hbound,
    (Written.Moves.step hoperand).trans hmoves, Written.run_of_step hend hstop, Chain.Next.toParsed]

/-- A formula is read both as the inside of a placeholder and as an expression of the language, and the
trees are one exactly if no product stands to the right of a sum. -/
theorem read_eq_parse_iff (s : Store) (scope : ScopeId) {first : Operand} {links : List Link}
    (hfirst : first.Valid (s.contains scope)) (hlinks : ∀ l ∈ links, l.Valid (s.contains scope))
    (filename : String) :
    ∃ f e, Formula.read (s.contains scope) (spell first links) = .ok f ∧
      parseExpression (String.ofList (spell first links)) filename = .ok e ∧
      (f.toNode = e ↔
        links.Pairwise fun left right => left.op ∈ [.add, .sub] → right.op ∉ [.mul, .div]) := by
  refine ⟨fromLeft first links, orderedTree first.formula.toNode (terms links),
    read_spell hfirst hlinks, ?_, ?_⟩
  · rw [parseExpression_eq_ok_iff, String.toList_ofList, expandTabs,
      expandTabsFrom_eq_self (tab_not_mem_spell hfirst hlinks)]
    exact readExpression_spell hfirst hlinks
  · rw [toNode_fromLeft, eq_comm, orderedTree_eq_leftTree_iff (arithmetic_terms hlinks), terms,
      List.pairwise_map]
    simp only [mem_sums_iff, mem_products_iff, ne_eq]

/-- A product behind a sum gets into its right operand only where operators have levels. -/
theorem read_eq_parse_iff_product :
    (Operand.var "x").Valid ((Store.root [("x", .int 4)]).contains 0) ∧
      ∃ f e, Formula.read ((Store.root [("x", .int 4)]).contains 0) "2 + 3*x".toList = .ok f ∧
        parseExpression "2 + 3*x" "" = .ok e ∧ f.toNode ≠ e := by
  have hname : (Operand.var "x").Valid ((Store.root [("x", .int 4)]).contains 0) := by
    refine ⟨by decide, ?_⟩
    rw [Store.contains, Store.owner?, Store.chain]
    rfl
  have hint {d : Char} (hd : Formula.isDigit d) (bound : String → Bool) :
      (Operand.int [d]).Valid bound :=
    ⟨List.cons_ne_nil _ _, List.forall_mem_singleton.mpr hd, Nat.le_add_left 1 _⟩
  have hlinks : ∀ l ∈ [⟨true, .add, true, .int ['3']⟩, ⟨false, .mul, false, .var "x"⟩],
      Link.Valid ((Store.root [("x", .int 4)]).contains 0) l := by
    refine List.forall_mem_cons.mpr ⟨⟨by decide, hint rfl _⟩, List.forall_mem_singleton.mpr ?_⟩
    exact ⟨by decide, hname⟩
  obtain ⟨f, e, hread, hparse, htrees⟩ := read_eq_parse_iff _ 0 (hint (d := '2') rfl _) hlinks ""
  exact ⟨hname, f, e, hread, hparse, fun heq => absurd (htrees.mp heq) (by decide)⟩

end Trees

end Kestrel.Formulas
