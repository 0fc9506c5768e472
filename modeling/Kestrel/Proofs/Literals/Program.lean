import Kestrel.Proofs.Literals.Expression
import Kestrel.Proofs.Lockstep.Text
import Kestrel.Proofs.Rendering.Literal

/-!
# The texts in a program

A program that can be read holds its texts between quotes in the order in which they are written: the tree
has one node for each of them and no other texts. A text without escapes and placeholders denotes the
characters between its quotes, whatever they are, except that tabs are replaced before the program is read,
also between quotes. How many spaces stand for one depends on its column.

* `yields_statementAt` — statements hold the texts that are written in them;
* `Verbatim` — texts without escapes and placeholders;
* `Node.literals_of_program` — the texts in a program, and what a text in it denotes;
* `parseProgram_quoted_tab` — a tab between quotes.
-/

namespace Kestrel

namespace Reader

/-! ### Statements -/

section Kinds

variable {expression body statement : Rule Node}

theorem yields_block (h : statement.Yields [] Node.literals) (bound : Nat) :
    (block statement bound).Yields [] Node.literals := by
  refine (silent_symbol (by decide)).bind fun _ => (Rule.Yields.many h bound).bind fun es => ?_
  refine (silent_symbol (by decide)).bind fun _ => .pure ?_
  rw [Node.literals_block, List.nil_append]

theorem yields_declaration (h : body.Yields [] Node.literals) (bound : Nat) :
    (declaration body bound).Yields [] Node.literals := by
  have hnames : (commaList identifier bound).Yields [] fun _ => [] := by
    intro c xs c' hxs
    have hnone : xs.flatMap (fun _ => ([] : List Node)) = [] :=
      List.flatMap_eq_nil_iff.mpr fun _ _ => rfl
    rw [silent_identifier.yields.commaList bound hxs]
    dsimp only
    rw [hnone]
  refine (silent_keyword _).bind fun _ => silent_identifier.bind fun name => ?_
  refine (silent_symbol (by decide)).bind fun _ => hnames.bind fun params => ?_
  refine (silent_symbol (by decide)).bind fun _ => h.bind fun e => .pure ?_
  rw [Node.literals_declare, List.nil_append, List.nil_append]

theorem yields_loop (h : expression.Yields [] Node.literals) (hbody : body.Yields [] Node.literals) :
    (loop expression body).Yields [] Node.literals := by
  refine (silent_keyword _).bind fun _ => (silent_symbol (by decide)).bind fun _ => ?_
  refine silent_identifier.bind fun name => (silent_keyword _).bind fun _ => ?_
  refine h.bind fun first => (silent_symbol (by decide)).bind fun _ => ?_
  refine h.bind fun last => (silent_symbol (by decide)).bind fun _ => hbody.bind fun e => .pure ?_
  rw [Node.literals_forLoop, List.nil_append, List.append_assoc]

theorem literals_ifNode (c yes : Node) (other : Option Node) :
    (ifNode c yes other).literals = c.literals ++ yes.literals ++ other.elim [] Node.literals := by
  rcases other with _ | e
  · simp [ifNode]
  · cases e <;> simp [ifNode]

theorem yields_conditional (h : expression.Yields [] Node.literals)
    (hbody : body.Yields [] Node.literals) (bound : Nat) :
    (conditional expression body bound).Yields [] Node.literals := by
  induction bound with
  | zero => exact nofun
  | succ bound ih =>
    have helse : Rule.Yields [] (do
        keyword .else
        Rule.orElse (conditional expression body bound) body) Node.literals :=
      (silent_keyword _).bind fun _ => .orElse ih hbody
    refine (silent_keyword _).bind fun _ => (silent_symbol (by decide)).bind fun _ => ?_
    refine h.bind fun c => (silent_symbol (by decide)).bind fun _ => ?_
    refine hbody.bind fun yes => helse.optional.bind fun other => .pure ?_
    rw [literals_ifNode, List.nil_append]

theorem yields_simple (h : expression.Yields [] Node.literals) :
    (simple expression).Yields [] Node.literals := by
  have hassign : (assignment expression).Yields [] Node.literals := by
    refine (silent_keyword _).optional.bind fun _ => silent_identifier.bind fun name => ?_
    refine silent_assignSign.bind fun _ => h.bind fun e => .pure ?_
    rw [Node.literals_assign, List.nil_append]
  have hsemicolon : semicolon.Yields [] fun _ => [] :=
    (silent_symbol (by decide)).optional.bind fun _ => .pure rfl
  refine (Rule.Yields.orElse hassign h).bind fun e => hsemicolon.bind fun _ => .pure ?_
  rw [List.nil_append, List.append_nil]

end Kinds

/-- A statement holds the texts that are written in it. -/
theorem yields_statementAt (bound : Nat) : (statementAt bound).Yields [] Node.literals := by
  induction bound with
  | zero => exact nofun
  | succ bound ih =>
    have h := yields_expressionAt (bound + 1)
    have hblock := yields_block ih (bound + 1)
    rw [statementAt]
    refine .oneOf fun p hp => ?_
    rw [statementForms] at hp
    simp only [List.mem_cons, List.not_mem_nil, or_false] at hp
    rcases hp with rfl | rfl | rfl | rfl | rfl
    · exact yields_declaration hblock (bound + 1)
    · exact yields_loop h hblock
    · exact yields_conditional h hblock (bound + 1)
    · exact hblock
    · exact yields_simple h

theorem literals_of_readStatements {cs : List Char} {es : List Node} (h : readStatements cs = .ok es) :
    (Node.block es).literals = quotedNodes cs := by
  obtain ⟨c, hmany, hend⟩ := readStatements_eq_ok_iff.mp h
  have hyields := Rule.Yields.many (yields_statementAt (readingBound cs)) (readingBound cs) hmany
  have hnone : quotedNodes c.rest = [] := by
    rw [quotedNodes, ← quotations_skip, hend]
    rfl
  rw [hnone, List.append_nil, List.nil_append] at hyields
  rw [Node.literals_block]
  exact hyields.symm

/-! ### Texts as they are written -/

/-- The text has no quotes, no escapes, no line ends and no placeholders. -/
structure Verbatim (s : List Char) : Prop where
  quote : '"' ∉ s
  escape : '\\' ∉ s
  feed : '\n' ∉ s
  carriage : '\r' ∉ s
  placeholder : ¬['$', '{'] <:+: s

open Text

variable {s : List Char}

/-- Tabs make no difference to that. -/
theorem Verbatim.expandTabsFrom (h : Verbatim s) (column : Nat) :
    Verbatim (expandTabsFrom column s) where
  quote hmem := h.quote (mem_of_mem_expandTabsFrom (by decide) hmem)
  escape hmem := h.escape (mem_of_mem_expandTabsFrom (by decide) hmem)
  feed hmem := h.feed (mem_of_mem_expandTabsFrom (by decide) hmem)
  carriage hmem := h.carriage (mem_of_mem_expandTabsFrom (by decide) hmem)
  placeholder htabs := h.placeholder (Written.infix_of_infix_expandTabsFrom (by decide) htabs)

/-- With its tabs replaced, a text between quotes still stands between quotes, and behind what stood in
front of it. -/
theorem exists_expandTabs_quote (before s after : List Char) :
    ∃ after', expandTabs (before ++ '"' :: (s ++ '"' :: after)) =
      Text.expandTabsFrom 0 before ++
        '"' :: (Text.expandTabsFrom (columnFrom 0 (before ++ ['"'])) s ++ '"' :: after') := by
  have hopen : Text.expandTabsFrom 0 (before ++ ['"']) = Text.expandTabsFrom 0 before ++ ['"'] := by
    rw [expandTabsFrom_append]
    rfl
  have hclose (column : Nat) :
      Text.expandTabsFrom column ('"' :: after) = '"' :: Text.expandTabsFrom (column + 1) after := rfl
  have hsplit : before ++ '"' :: (s ++ '"' :: after) = (before ++ ['"']) ++ (s ++ '"' :: after) := by
    simp
  refine ⟨Text.expandTabsFrom (columnFrom (columnFrom 0 (before ++ ['"'])) s + 1) after, ?_⟩
  rw [expandTabs, hsplit, expandTabsFrom_append, hopen, expandTabsFrom_append, hclose]
  simp

theorem Verbatim.tail {c : Char} (h : Verbatim (c :: s)) : Verbatim s where
  quote hmem := h.quote (List.mem_cons_of_mem c hmem)
  escape hmem := h.escape (List.mem_cons_of_mem c hmem)
  feed hmem := h.feed (List.mem_cons_of_mem c hmem)
  carriage hmem := h.carriage (List.mem_cons_of_mem c hmem)
  placeholder htail := h.placeholder (htail.trans (List.suffix_cons c s).isInfix)

theorem Verbatim.isQuotable (h : Verbatim s) : Written.isQuotable s = true := by
  fun_induction Written.isQuotable s with
  | case1 => rfl
  | case2 c cs ih => exact absurd List.mem_cons_self h.escape
  | case3 c cs hnot ih =>
    have hne {x : Char} (hx : x ∉ c :: cs) : c ≠ x := fun heq => hx (heq ▸ List.mem_cons_self)
    simp [hne h.quote, hne h.escape, hne h.feed, hne h.carriage, ih h.tail]

theorem Verbatim.stringNode (h : Verbatim s) :
    stringNode (unescapeFrom 0 s) = .str (String.ofList s) := by
  rw [unescapeFrom_eq_self h.escape, Reader.stringNode, if_neg]
  exact fun hplaceholder => h.placeholder ((Written.hasPlaceholder_iff s).mp hplaceholder)

/-- The text between the quotes behind `before`. -/
theorem Verbatim.quotedNodes_getElem? (h : Verbatim s) {before : List Char}
    (hzone : zoneFrom .code before = .code) (after : List Char) :
    (quotedNodes (before ++ '"' :: (s ++ '"' :: after)))[(quotations before).length]? =
      some (.str (String.ofList s)) := by
  have hquoted := Written.quoted?_append h.isQuotable after
  have hquotations : quotations (before ++ '"' :: (s ++ '"' :: after)) =
      quotations before ++ quotations ('"' :: (s ++ '"' :: after)) :=
    quotations_append hzone fun _ => nofun
  rw [quotedNodes, hquotations, quotations_quote hquoted, List.getElem?_map,
    List.getElem?_append_right (Nat.le_refl _), Nat.sub_self, List.getElem?_cons_zero, Option.map_some,
    h.stringNode]

end Reader

open Reader Text in
/-- The tree of a program holds as texts what stands between quotes in the program with its tabs replaced,
with escapes resolved, in the order in which it is written, and no other texts. So where a text without
escapes and placeholders stands between quotes, outside comments and other texts, its node is a plain text.
It denotes the characters between its quotes, with spaces up to the next tab stop in place of each tab, and
the very characters if there is no tab among them. -/
theorem Node.literals_of_program {source filename : String} {es : List Node}
    (h : parseProgram source filename = .ok es) :
    (Node.block es).literals = quotedNodes (expandTabs source.toList) ∧
      ∀ before s after : List Char, source.toList = before ++ '"' :: (s ++ '"' :: after) →
        zoneFrom .code before = .code → Verbatim s →
          (Node.block es).literals[(quotations before).length]? =
              some (.str (String.ofList (expandTabsFrom (columnFrom 0 (before ++ ['"'])) s))) ∧
            ('\t' ∉ s →
              (Node.block es).literals[(quotations before).length]? = some (.str (String.ofList s))) := by
  have hliterals := literals_of_readStatements (parseProgram_eq_ok_iff.mp h)
  refine ⟨hliterals, fun before s after hsource hzone hs => ?_⟩
  have hnode : (Node.block es).literals[(quotations before).length]? =
      some (.str (String.ofList (expandTabsFrom (columnFrom 0 (before ++ ['"'])) s))) := by
    obtain ⟨after', hexpanded⟩ := exists_expandTabs_quote before s after
    rw [hliterals, hsource, hexpanded, ← length_quotations_expandTabsFrom 0 before]
    refine (hs.expandTabsFrom _).quotedNodes_getElem? ?_ _
    rw [zoneFrom_expandTabsFrom, hzone]
  refine ⟨hnode, fun htab => ?_⟩
  rw [hnode, expandTabsFrom_eq_self htab]

/-- A tab between quotes, one column behind the start of the line, becomes seven spaces. -/
theorem parseProgram_quoted_tab :
    Reader.Verbatim ['\t'] ∧ parseProgram "\"\t\"" "" = .ok [.str "       "] ∧
      parseProgram "\"\t\"" "" ≠ .ok [.str "\t"] := by
  have hprogram : parseProgram "\"\t\"" "" = .ok [.str "       "] := rfl
  have hspaces : "       " ≠ "\t" := by decide
  refine ⟨⟨by decide, by decide, by decide, by decide, by decide⟩, hprogram, ?_⟩
  rw [hprogram]
  simp [hspaces]

open Reader in
/-- The second of two texts, behind slashes that begin no comment and a quote in a comment. It is a tab. -/
theorem Node.literals_of_program_tab :
    let tree : Node := .binary .concat (.str "//") (.str "       ")
    (Node.block [tree]).literals[1]? = some (.str "       ") := by
  intro tree
  have hprogram : parseProgram "\"//\"++// \"\n\"\t\"" "" = .ok [tree] := rfl
  have hs : Verbatim ['\t'] := ⟨by decide, by decide, by decide, by decide, by decide⟩
  have hzone : zoneFrom .code "\"//\"++// \"\n".toList = .code := by decide
  exact ((Node.literals_of_program hprogram).2 "\"//\"++// \"\n".toList ['\t'] [] rfl hzone hs).1

end Kestrel
