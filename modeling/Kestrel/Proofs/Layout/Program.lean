import Mathlib.Logic.Relation
import Kestrel.Proofs.Joining.Program
import Kestrel.Proofs.Layout.Relaid
import Kestrel.Proofs.Lockstep.Progress

/-!
# Layout makes no difference

A program may be laid out in another way: its statements stay the same.

* `AlikeWithin` — texts that differ in layout alone, from what their start belongs to;
* `Relaid.alike` — new layout for a text, with the tabs replaced: how many spaces stand for a tab behind
  it does not matter;
* `readStatements_alike` — texts that differ in layout alone have the same statements;
* `parseProgram_relaid` — the program stays the same, however often its layout is written anew.
-/

namespace Kestrel

namespace Reader

open Text

variable {cs ds : List Char} {c : Char}

/-! ### Alike from any position on -/

/-- The texts differ in layout alone behind an opening quote. -/
inductive AlikeQuoted : List Char → List Char → Prop where
  /-- the same text up to the closing quote -/
  | closed {raw cs ds : List Char} (hcs : quoted? cs = some raw) (hds : quoted? ds = some raw)
    (h : Alike (cs.drop (raw.length + 1)) (ds.drop (raw.length + 1))) : AlikeQuoted cs ds
  /-- no closing quote -/
  | torn {cs ds : List Char} (hcs : quoted? cs = none) (hds : quoted? ds = none) : AlikeQuoted cs ds

/-- The texts differ in layout alone, where their starts belong to the zone. -/
def AlikeWithin (cs ds : List Char) : Zone → Prop
  | .code => Alike cs ds
  | .quoted => AlikeQuoted cs ds
  | .quotedEscape => AlikeQuoted ('\\' :: cs) ('\\' :: ds)
  | .comment => Alike (skipFrom .comment none cs).rest (skipFrom .comment none ds).rest
  | .commentEscape => Alike (skipFrom .escaped none cs).rest (skipFrom .escaped none ds).rest

namespace AlikeQuoted

theorem alike (h : AlikeQuoted cs ds) : Alike ('"' :: cs) ('"' :: ds) := by
  cases h with
  | closed hcs hds h => exact .quoted hcs hds h
  | torn hcs hds => exact .torn hcs hds

/-- Behind the same characters, which belong to the text between quotes unless they stop it. -/
theorem append (as : List Char) (stops : Prop) [Decidable stops] (h : AlikeQuoted cs ds)
    (hquoted : ∀ es, quoted? (as ++ es) = if stops then none else (quoted? es).map (as ++ ·)) :
    AlikeQuoted (as ++ cs) (as ++ ds) := by
  by_cases hstops : stops
  · exact .torn ((hquoted cs).trans (if_pos hstops)) ((hquoted ds).trans (if_pos hstops))
  · cases h with
    | torn hcs hds =>
      refine .torn ?_ ?_
      · rw [hquoted, if_neg hstops, hcs, Option.map_none]
      · rw [hquoted, if_neg hstops, hds, Option.map_none]
    | @closed raw _ _ hcs hds h =>
      have hdrop (es : List Char) :
          (as ++ es).drop ((as ++ raw).length + 1) = es.drop (raw.length + 1) := by
        rw [List.length_append, Nat.add_assoc, List.drop_append, List.drop_eq_nil_of_le (by omega),
          List.nil_append, Nat.add_sub_cancel_left]
      have hclosed {es : List Char} (hes : quoted? es = some raw) :
          quoted? (as ++ es) = some (as ++ raw) := by
        rw [hquoted, if_neg hstops, hes, Option.map_some]
      refine .closed (hclosed hcs) (hclosed hds) ?_
      rwa [hdrop, hdrop]

/-- Behind a character between quotes. -/
theorem cons (h : AlikeQuoted cs ds) (hquote : c ≠ '"') (hescape : c ≠ '\\') :
    AlikeQuoted (c :: cs) (c :: ds) :=
  h.append [c] (c = '\n' ∨ c = '\r') fun es => by
    rw [List.singleton_append, quoted?_cons hescape, if_neg hquote]
    rfl

/-- Behind an escape. -/
theorem escape (h : AlikeQuoted cs ds) : AlikeQuoted ('\\' :: c :: cs) ('\\' :: c :: ds) :=
  h.append ['\\', c] (c = '\n') fun _ => rfl

end AlikeQuoted

namespace AlikeWithin

theorem nil (zone : Zone) : AlikeWithin [] [] zone := by
  cases zone with
  | code | comment | commentEscape => exact Alike.nil
  | quoted | quotedEscape => exact AlikeQuoted.torn rfl rfl

theorem opensLayout_of_gap {cs : List Char} (h : isGap c = true) : opensLayout (c :: cs) = true := by
  rw [opensLayout, List.head?_cons, Option.any_some, h, Bool.true_or]

theorem opensLayout_of_comment (h : startsComment cs = true) : opensLayout cs = true := by
  rw [opensLayout, h, Bool.or_true]

/-- Behind a character between tokens or in one. -/
theorem code (h : AlikeWithin cs ds (Zone.code.next c cs))
    (hcomment : startsComment (c :: ds) = startsComment (c :: cs)) : Alike (c :: cs) (c :: ds) := by
  rw [Zone.next] at h
  split at h
  next hquote =>
    subst hquote
    exact AlikeQuoted.alike h
  next hquote =>
    split at h
    next hcs =>
      have hds := hcomment.trans hcs
      refine .layout (opensLayout_of_comment hcs) (opensLayout_of_comment hds) ?_
      rw [stripped_comment hcs, stripped_comment hds]
      exact h
    next hcs =>
      have hcs := Bool.eq_false_iff.mpr hcs
      have hds := hcomment.trans hcs
      cases hgap : isGap c with
      | true =>
        refine .layout (opensLayout_of_gap hgap) (opensLayout_of_gap hgap) ?_
        rw [stripped_blank hgap, stripped_blank hgap]
        exact Alike.stripped h
      | false =>
        exact .char (opensLayout_cons.mpr ⟨hgap, hcs⟩) (opensLayout_cons.mpr ⟨hgap, hds⟩) hquote h

/-- Behind a character of a comment that does not end it. -/
theorem comment {layout : Layout} (h : AlikeWithin cs ds (commentAfter c).zone)
    (hlayout : layout ≠ .gap) (hc : c ≠ '\n') :
    Alike (skipFrom layout none (c :: cs)).rest (skipFrom layout none (c :: ds)).rest := by
  rw [rest_skipFrom_comment hlayout hc, rest_skipFrom_comment hlayout hc]
  have hafter := commentAfter_ne_gap c
  generalize commentAfter c = layout' at h hafter
  cases layout' with
  | gap => exact absurd rfl hafter
  | comment | escaped => exact h

/-- Behind the same character. -/
theorem cons {zone : Zone} (h : AlikeWithin cs ds (zone.next c cs))
    (hcomment : startsComment (c :: ds) = startsComment (c :: cs)) :
    AlikeWithin (c :: cs) (c :: ds) zone := by
  cases zone with
  | code => exact code h hcomment
  | quoted =>
    rw [Zone.next] at h
    split at h
    next hquote =>
      subst hquote
      exact AlikeQuoted.closed rfl rfl (h : Alike (cs.drop 0) (ds.drop 0))
    next hquote =>
      split at h
      next hescape =>
        subst hescape
        exact h
      next hescape => exact AlikeQuoted.cons h hquote hescape
  | quotedEscape => exact AlikeQuoted.escape h
  | comment =>
    rw [Zone.next] at h
    split at h
    next hline =>
      subst hline
      rw [AlikeWithin, rest_skipFrom_lineEnd, rest_skipFrom_lineEnd]
      exact Alike.stripped h
    next hline =>
      rw [← zone_commentAfter] at h
      exact comment h (by decide) hline
  | commentEscape =>
    rw [Zone.next] at h
    split at h
    next hline =>
      subst hline
      rw [AlikeWithin, rest_skipFrom_escapedLineEnd, rest_skipFrom_escapedLineEnd]
      exact h
    next hline =>
      rw [← zone_commentAfter] at h
      exact comment h (by decide) hline

/-- Behind the spaces for a tab, which need not be as many. -/
theorem tab {zone : Zone} (hzone : zone.isQuoted = false) (n m : Nat)
    (h : AlikeWithin cs ds (zone.next '\t' cs)) :
    AlikeWithin (' ' :: (List.replicate n ' ' ++ cs)) (' ' :: (List.replicate m ' ' ++ ds)) zone := by
  cases zone with
  | code =>
    refine Alike.layout (opensLayout_of_gap (by decide)) (opensLayout_of_gap (by decide)) ?_
    rw [stripped_tab, stripped_tab]
    rw [Zone.next, if_neg (by decide), startsComment_of_ne (by decide), if_neg (by decide)] at h
    exact Alike.stripped h
  | comment =>
    have hlayout : Layout.comment ≠ .gap := by decide
    rw [AlikeWithin, rest_skipFrom_tab hlayout, rest_skipFrom_tab hlayout]
    exact h
  | commentEscape =>
    have hlayout : Layout.escaped ≠ .gap := by decide
    rw [AlikeWithin, rest_skipFrom_tab hlayout, rest_skipFrom_tab hlayout]
    exact h
  | quoted | quotedEscape => cases hzone

/-- Behind a text whose tabs are replaced in two places. -/
theorem expandTabsFrom {zone : Zone} {as : List Char} (htab : noQuotedTabFrom zone as = true)
    (hcs : as.getLast? = some '/' → cs.head? ≠ some '/')
    (hds : as.getLast? = some '/' → ds.head? ≠ some '/')
    (h : ∀ i j, AlikeWithin (expandTabsFrom i cs) (expandTabsFrom j ds) (zoneFrom zone as))
    (i j : Nat) :
    AlikeWithin (Text.expandTabsFrom i (as ++ cs)) (Text.expandTabsFrom j (as ++ ds)) zone := by
  induction as generalizing zone i j with
  | nil => exact h i j
  | cons c as ih =>
    simp only [noQuotedTabFrom, Bool.and_eq_true, Bool.not_eq_true', Bool.and_eq_false_iff,
      decide_eq_false_iff_not] at htab
    obtain ⟨hquoted, hrest⟩ := htab
    have htail := ih hrest (getLast?_tail hcs) (getLast?_tail hds) (zoneFrom_cons zone c as ▸ h)
    by_cases hc : c = '\t'
    · subst hc
      obtain ⟨n, i', hi⟩ := Written.exists_expandTabsFrom_tab i
      obtain ⟨m, j', hj⟩ := Written.exists_expandTabsFrom_tab j
      rw [List.cons_append, List.cons_append, hi, hj]
      refine tab (hquoted.resolve_left fun h => h rfl) n m ?_
      have hcomment (es : List Char) : startsComment ('\t' :: es) = startsComment ('\t' :: as) := by
        rw [startsComment_of_ne (by decide), startsComment_of_ne (by decide)]
      rw [Zone.next_congr (hcomment _)]
      exact htail i' j'
    · obtain ⟨i', hi⟩ := Written.exists_expandTabsFrom_cons hc i
      obtain ⟨j', hj⟩ := Written.exists_expandTabsFrom_cons hc j
      have hcomment (k : Nat) {es : List Char}
          (hes : (c :: as).getLast? = some '/' → es.head? ≠ some '/') :
          startsComment (c :: Text.expandTabsFrom k (as ++ es)) = startsComment (c :: as) := by
        rw [startsComment_expandTabsFrom, startsComment_append hes]
      rw [List.cons_append, List.cons_append, hi, hj]
      refine cons ?_ ((hcomment j' hds).trans (hcomment i' hcs).symm)
      rw [Zone.next_congr (hcomment i' hcs)]
      exact htail i' j'

/-- Replacing tabs from two columns on gives texts that differ in layout alone. -/
theorem expandTabsFrom_self {zone : Zone} {as : List Char} (htab : noQuotedTabFrom zone as = true)
    (i j : Nat) : AlikeWithin (Text.expandTabsFrom i as) (Text.expandTabsFrom j as) zone := by
  have h : AlikeWithin (Text.expandTabsFrom i (as ++ [])) (Text.expandTabsFrom j (as ++ [])) zone :=
    @expandTabsFrom [] [] zone as htab nofun nofun (fun _ _ => .nil _) i j
  rwa [List.append_nil] at h

end AlikeWithin

/-! ### New layout -/

theorem opensLayout_expandTabsFrom (column : Nat) (cs : List Char) :
    opensLayout (expandTabsFrom column cs) = opensLayout cs := by
  cases cs with
  | nil => rfl
  | cons c cs =>
    by_cases hc : c = '\t'
    · subst hc
      obtain ⟨n, column', h⟩ := Written.exists_expandTabsFrom_tab column
      rw [h, AlikeWithin.opensLayout_of_gap (by decide), AlikeWithin.opensLayout_of_gap (by decide)]
    · obtain ⟨column', h⟩ := Written.exists_expandTabsFrom_cons hc column
      rw [h, opensLayout, startsComment_expandTabsFrom, opensLayout]
      rfl

theorem opensLayout_append (h : opensLayout cs = true) (ds : List Char) :
    opensLayout (cs ++ ds) = true := by
  cases cs with
  | nil => cases h
  | cons c cs =>
    cases cs with
    | cons _ _ => exact h
    | nil =>
      cases hgap : isGap c with
      | true => exact AlikeWithin.opensLayout_of_gap hgap
      | false =>
        rw [opensLayout, List.head?_cons, Option.any_some, hgap] at h
        cases h

/-- The tabs replaced, a text and the same text with new layout differ in layout alone. -/
theorem Relaid.alike (h : Relaid cs ds) (htab : Reader.noQuotedTab cs = true) :
    Alike (expandTabs cs) (expandTabs ds) := by
  obtain @⟨as, old, new, bs, hzone, hslash, hold, hlayout, hclosed, hnew, hblank⟩ := h
  rw [← List.head?_append_of_ne_nil old hold] at hslash
  rw [Reader.noQuotedTab, noQuotedTabFrom_append hslash, hzone, Bool.and_eq_true] at htab
  obtain ⟨has, hbs⟩ := htab
  have hopens : opensLayout (old ++ bs) = true :=
    opensLayout_append (opensLayout_of_stripped_eq_nil hlayout hold) bs
  have hopens' : opensLayout (new ++ bs) = true := by
    refine opensLayout_append ?_ bs
    rw [opensLayout, hblank, Bool.true_or]
  refine AlikeWithin.expandTabsFrom has hslash (fun _ => head?_append_ne_slash hblank bs) ?_ 0 0
  intro i j
  rw [hzone]
  refine .layout ((opensLayout_expandTabsFrom i _).trans hopens)
    ((opensLayout_expandTabsFrom j _).trans hopens') ?_
  -- behind the layout the columns differ, which is why tabs are replaced from any two columns on
  obtain ⟨layout, hpasses, hend⟩ := passes_of_stripped_eq_nil hlayout hclosed
  obtain ⟨i', hi⟩ := hpasses.skip i
  obtain ⟨j', hj⟩ := hnew.passes.skip j
  rw [stripped, hi, stripped, hj]
  change noQuotedTabFrom Layout.gap.zone _ = true at hbs
  rw [hpasses.tab] at hbs
  obtain rfl | rfl := hend
  · exact Alike.stripped (AlikeWithin.expandTabsFrom_self hbs i' j')
  · cases layout <;> exact Alike.nil

/-- Texts that differ in layout alone have the same statements. -/
theorem readStatements_alike {es : List Node} (h : Alike cs ds) (hcs : readStatements cs = .ok es) :
    readStatements ds = .ok es := by
  obtain ⟨c, hes, hc⟩ := readStatements_eq_ok_iff.mp hcs
  have hstart : Abreast (Cursor.start cs) (Cursor.start ds) := .of_rest h rfl
  -- both texts, within a bound that neither reaches
  have hle := Nat.le_add_right (readingBound cs) (readingBound ds)
  have hboth := (follows_statementAt programTokens_abreast hle).many hle _ _ hstart (by rw [hes]; nofun)
  -- the second text, within its own bound
  have hle := Nat.le_add_left (readingBound ds) (readingBound cs)
  have hsame := (follows_statementAt programTokens_eq hle).many hle _ _ (rfl : Cursor.start ds = _)
    (statements_ne_exhausted (show ds.length < ds.length + 2 by omega))
  rw [hes] at hboth
  generalize Rule.many _ _ (Cursor.start ds) = r at hboth hsame
  cases hboth with
  | ok _ hd =>
    rename_i d
    generalize hrun : Rule.many _ (readingBound ds) (Cursor.start ds) = r' at hsame
    cases hsame with
    | ok _ heq =>
      subst heq
      refine readStatements_eq_ok_iff.mpr ⟨_, hrun, ?_⟩
      have hend := hd.rest
      rw [hc] at hend
      exact List.head?_eq_none_iff.mp (hend.head?_eq rfl)

end Reader

/-- A program in which no text between quotes contains a tab stays the same program, however often its
layout is written anew. -/
theorem parseProgram_relaid {source source' filename : String} {es : List Node}
    (h : parseProgram source filename = .ok es) (htab : Reader.noQuotedTab source.toList = true)
    (hrelaid : Relation.ReflTransGen Reader.Relaid source.toList source'.toList) :
    parseProgram source' filename = .ok es := by
  rw [parseProgram_eq_ok_iff] at h ⊢
  suffices hstep : ∀ cs, Relation.ReflTransGen Reader.Relaid source.toList cs →
      Reader.noQuotedTab cs = true ∧ Reader.readStatements (Text.expandTabs cs) = .ok es from
    (hstep _ hrelaid).2
  intro cs hcs
  induction hcs with
  | refl => exact ⟨htab, h⟩
  | tail _ hnew ih => exact ⟨hnew.noQuotedTab ih.1, Reader.readStatements_alike (hnew.alike ih.1) ih.2⟩

/-- A comment gives way to a tab, and the blank at the end to a comment. -/
theorem parseProgram_relaid_comment :
    Reader.noQuotedTab "\"//\" // y\n; ".toList = true ∧
      Relation.ReflTransGen Reader.Relaid "\"//\" // y\n; ".toList
        "\"//\"\t; // \"\n\r".toList ∧
      parseProgram "\"//\" // y\n; " "" = .ok [.str "//"] ∧
      parseProgram "\"//\"\t; // \"\n\r" "" = .ok [.str "//"] := by
  have htab : Reader.noQuotedTab "\"//\" // y\n; ".toList = true := by decide
  have hparse : parseProgram "\"//\" // y\n; " "" = .ok [.str "//"] := rfl
  have hnew : Reader.Spacing ['\t'] := .blank rfl .nil
  have hfirst : Reader.Relaid "\"//\" // y\n; ".toList "\"//\"\t; ".toList :=
    @Reader.Relaid.intro "\"//\"".toList " // y\n".toList ['\t'] "; ".toList rfl (by decide)
      (by decide) rfl (.inl rfl) hnew rfl
  have hquote : Reader.Spacing " // \"\n\r".toList :=
    .blank rfl (@Reader.Spacing.comment [' ', '"'] _ (by decide) (by decide) (.blank rfl .nil))
  have hsecond : Reader.Relaid "\"//\"\t; ".toList "\"//\"\t; // \"\n\r".toList :=
    @Reader.Relaid.intro "\"//\"\t;".toList " ".toList " // \"\n\r".toList [] rfl (by decide)
      (by decide) rfl (.inl rfl) hquote rfl
  have hrelaid := Relation.ReflTransGen.tail (.single hfirst) hsecond
  exact ⟨htab, hrelaid, hparse, parseProgram_relaid hparse htab hrelaid⟩

end Kestrel
