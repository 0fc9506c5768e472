import Kestrel.Proofs.Joining.Zone
import Kestrel.Proofs.Layout.Alike

/-!
# New layout for a program

The layout between two tokens of a program, or at one of its ends, may be written anew: with other blanks,
and with other comments.

* `Spacing` — blanks and comments that each end with their line;
* `Relaid` — a text with one stretch of layout written anew;
* `noQuotedTab` — no tab stands in a text between quotes, where spaces would replace it;
* `Passes`, `exists_passes`, `Spacing.passes` — layout is passed over in front of any text;
* `Relaid.noQuotedTab` — no tab comes to stand in a text between quotes.
-/

namespace Kestrel.Reader

open Text

/-! ### Layout -/

/-- Blanks, and comments without a backslash that a line feed ends. -/
inductive Spacing : List Char → Prop where
  /-- nothing -/
  | nil : Spacing []
  /-- a blank -/
  | blank {c : Char} {cs : List Char} (hc : isGap c = true) (h : Spacing cs) : Spacing (c :: cs)
  /-- a comment, up to the line feed -/
  | comment {text cs : List Char} (hline : '\n' ∉ text) (hescape : '\\' ∉ text) (h : Spacing cs) :
    Spacing ('/' :: '/' :: (text ++ '\n' :: cs))

/-- Part of a text between quotes. -/
def Zone.isQuoted : Zone → Bool
  | quoted | quotedEscape => true
  | code | comment | commentEscape => false

/-- What the text `cs` belongs to if the character `c` in front of it belongs to the zone. -/
def Zone.next (c : Char) (cs : List Char) : Zone → Zone
  | code => if c = '"' then quoted else if startsComment (c :: cs) then comment else code
  | quoted => if c = '"' then code else if c = '\\' then quotedEscape else quoted
  | quotedEscape => quoted
  | comment => if c = '\n' then code else commentAfter c
  | commentEscape => if c = '\n' then comment else commentAfter c

/-- No tab of the text, whose start belongs to `zone`, stands between quotes. -/
def noQuotedTabFrom (zone : Zone) : List Char → Bool
  | [] => true
  | c :: cs => !(c = '\t' && zone.isQuoted) && noQuotedTabFrom (zone.next c cs) cs

/-- No text between quotes contains a tab. -/
def noQuotedTab (cs : List Char) : Bool := noQuotedTabFrom .code cs

/-- One stretch of layout in a text is written anew. The old one lies outside comments and texts between
quotes and is not empty. The text goes on behind it unless its last comment is open. The new one starts
with a blank. -/
inductive Relaid : List Char → List Char → Prop where
  /-- between `as` and `bs`, layout `new` in place of `old` -/
  | intro {as old new bs : List Char} (hzone : zoneFrom .code as = .code)
    (hslash : as.getLast? = some '/' → old.head? ≠ some '/') (hold : old ≠ [])
    (hlayout : stripped old = []) (hclosed : zoneFrom .code old = .code ∨ bs = [])
    (hnew : Spacing new) (hblank : new.head?.any isGap = true) :
    Relaid (as ++ (old ++ bs)) (as ++ (new ++ bs))

/-! ### What belongs to what -/

theorem startsComment_append {c : Char} {as bs : List Char}
    (h : (c :: as).getLast? = some '/' → bs.head? ≠ some '/') :
    startsComment (c :: (as ++ bs)) = startsComment (c :: as) := by
  cases as with
  | cons a as => rfl
  | nil =>
    cases bs with
    | nil => rfl
    | cons b bs =>
      by_cases hc : c = '/'
      · have hb : b ≠ '/' := fun hb => h (congrArg some hc) (congrArg some hb)
        simp [startsComment, hb]
      · rw [List.nil_append, startsComment_of_ne hc, startsComment_of_ne hc]

theorem getLast?_tail {c : Char} {as bs : List Char}
    (h : (c :: as).getLast? = some '/' → bs.head? ≠ some '/') :
    as.getLast? = some '/' → bs.head? ≠ some '/' := by
  cases as with
  | nil => nofun
  | cons a as =>
    rw [List.getLast?_cons_cons] at h
    exact h

theorem zoneFrom_cons (zone : Zone) (c : Char) (cs : List Char) :
    zoneFrom zone (c :: cs) = zoneFrom (zone.next c cs) cs := by
  cases zone with
  | code | quoted =>
    simp only [zoneFrom, Zone.next]
    split
    · rfl
    · split <;> rfl
  | quotedEscape => rfl
  | comment | commentEscape =>
    simp only [zoneFrom, Zone.next]
    split <;> rfl

/-- What follows matters only if it begins a comment. -/
theorem Zone.next_congr {c : Char} {cs ds : List Char}
    (h : startsComment (c :: ds) = startsComment (c :: cs)) (zone : Zone) :
    zone.next c ds = zone.next c cs := by
  cases zone with
  | code => rw [next, h, next]
  | quoted | quotedEscape | comment | commentEscape => rfl

/-- A tab stands between quotes in one of two parts of a text, if the last character of the first one
begins no comment with the second one. -/
theorem noQuotedTabFrom_append {zone : Zone} {as bs : List Char}
    (h : as.getLast? = some '/' → bs.head? ≠ some '/') :
    noQuotedTabFrom zone (as ++ bs) =
      (noQuotedTabFrom zone as && noQuotedTabFrom (zoneFrom zone as) bs) := by
  induction as generalizing zone with
  | nil => rfl
  | cons c as ih =>
    rw [List.cons_append, noQuotedTabFrom, noQuotedTabFrom, Zone.next_congr (startsComment_append h),
      ih (getLast?_tail h), zoneFrom_cons, Bool.and_assoc]

/-! ### Layout that is passed over -/

/-- In front of any text the layout `cs` is passed over, also with its tabs replaced: what is at `layout`
before it is at `layout'` behind it. -/
structure Passes (layout : Layout) (cs : List Char) (layout' : Layout) : Prop where
  /-- what the text belongs to -/
  zone (bs : List Char) : zoneFrom layout.zone (cs ++ bs) = zoneFrom layout'.zone bs
  /-- tabs in texts between quotes -/
  tab (bs : List Char) : noQuotedTabFrom layout.zone (cs ++ bs) = noQuotedTabFrom layout'.zone bs
  /-- what is skipped -/
  skip (column : Nat) : ∃ column', ∀ bs,
    (skipFrom layout none (expandTabsFrom column (cs ++ bs))).rest =
      (skipFrom layout' none (expandTabsFrom column' bs)).rest

theorem rest_skipFrom_spaces {layout : Layout} (h : layout ≠ .escaped) (n : Nat) (cs : List Char) :
    (skipFrom layout none (List.replicate n ' ' ++ cs)).rest = (skipFrom layout none cs).rest := by
  induction n with
  | zero => rfl
  | succ n ih =>
    have h' : Layout.comment ≠ .gap := nofun
    rw [List.replicate_succ, List.cons_append, ← ih]
    cases layout with
    | gap => exact stripped_blank (by decide) _
    | comment => exact rest_skipFrom_comment h' (by decide) _
    | escaped => exact absurd rfl h

/-- The spaces for a tab between tokens. -/
theorem stripped_tab (n : Nat) (cs : List Char) :
    stripped (' ' :: (List.replicate n ' ' ++ cs)) = stripped cs :=
  (stripped_blank (by decide) _).trans (rest_skipFrom_spaces (by decide : Layout.gap ≠ .escaped) n cs)

/-- The spaces for a tab in a comment. -/
theorem rest_skipFrom_tab {layout : Layout} (h : layout ≠ .gap) (n : Nat) (cs : List Char) :
    (skipFrom layout none (' ' :: (List.replicate n ' ' ++ cs))).rest =
      (skipFrom .comment none cs).rest :=
  (rest_skipFrom_comment h (by decide) _).trans
    (rest_skipFrom_spaces (by decide : Layout.comment ≠ .escaped) n cs)

namespace Passes

variable {layout layout' layout'' : Layout} {c : Char}

theorem nil (layout : Layout) : Passes layout [] layout :=
  ⟨fun _ => rfl, fun _ => rfl, fun column => ⟨column, fun _ => rfl⟩⟩

theorem append (h : Passes layout cs layout') (h' : Passes layout' ds layout'') :
    Passes layout (cs ++ ds) layout'' := by
  refine ⟨fun bs => ?_, fun bs => ?_, fun column => ?_⟩
  · rw [List.append_assoc, h.zone, h'.zone]
  · rw [List.append_assoc, h.tab, h'.tab]
  · obtain ⟨column', hskip⟩ := h.skip column
    obtain ⟨column'', hskip'⟩ := h'.skip column'
    refine ⟨column'', fun bs => ?_⟩
    rw [List.append_assoc, hskip, hskip']

/-- One character. Spaces stand for it if it is a tab. -/
theorem single (hnext : ∀ bs, layout.zone.next c bs = layout'.zone)
    (hskip : ∀ bs, (skipFrom layout none (c :: bs)).rest = (skipFrom layout' none bs).rest)
    (htab : c = '\t' → ∀ n bs, (skipFrom layout none (' ' :: (List.replicate n ' ' ++ bs))).rest =
      (skipFrom layout' none bs).rest) :
    Passes layout [c] layout' := by
  have hquoted : layout.zone.isQuoted = false := by cases layout <;> rfl
  refine ⟨fun bs => ?_, fun bs => ?_, fun column => ?_⟩
  · rw [List.singleton_append, zoneFrom_cons, hnext]
  · rw [List.singleton_append, noQuotedTabFrom, hnext, hquoted, Bool.and_false, Bool.not_false,
      Bool.true_and]
  by_cases hc : c = '\t'
  · subst hc
    obtain ⟨n, column', h⟩ := Written.exists_expandTabsFrom_tab column
    refine ⟨column', fun bs => ?_⟩
    rw [List.singleton_append, h, htab rfl]
  · obtain ⟨column', h⟩ := Written.exists_expandTabsFrom_cons hc column
    refine ⟨column', fun bs => ?_⟩
    rw [List.singleton_append, h, hskip]

theorem blank (hc : isGap c = true) : Passes .gap [c] .gap := by
  obtain ⟨hquote, hslash, _⟩ := ne_of_isGap hc
  refine single (fun bs => ?_) (stripped_blank hc) fun _ => stripped_tab
  rw [Layout.zone, Zone.next, if_neg hquote, startsComment_of_ne hslash, if_neg (by decide)]

/-- A line feed ends a comment. -/
theorem lineEnd : Passes .comment ['\n'] .gap :=
  single (fun _ => rfl) rest_skipFrom_lineEnd nofun

/-- A line feed behind a backslash does not. -/
theorem escapedLineEnd : Passes .escaped ['\n'] .comment :=
  single (fun _ => rfl) rest_skipFrom_escapedLineEnd nofun

theorem comment (hlayout : layout ≠ .gap) (hc : c ≠ '\n') : Passes layout [c] (commentAfter c) := by
  refine single (fun bs => ?_) (rest_skipFrom_comment hlayout hc) ?_
  · cases layout with
    | gap => exact absurd rfl hlayout
    | comment | escaped => rw [zone_commentAfter, Layout.zone, Zone.next, if_neg hc]
  · rintro rfl
    exact rest_skipFrom_tab hlayout

/-- A slash in front of another one begins a comment. -/
theorem commentStart {cs : List Char} (h : Passes .comment ('/' :: cs) layout') :
    Passes .gap ('/' :: '/' :: cs) layout' := by
  refine ⟨fun bs => h.zone bs, fun bs => h.tab bs, fun column => ?_⟩
  obtain ⟨column₁, h₁⟩ := Written.exists_expandTabsFrom_cons (show '/' ≠ '\t' by decide) column
  obtain ⟨column₂, h₂⟩ := Written.exists_expandTabsFrom_cons (show '/' ≠ '\t' by decide) column₁
  obtain ⟨column', hskip⟩ := h.skip column₁
  refine ⟨column', fun bs => ?_⟩
  rw [← hskip, List.cons_append, List.cons_append, h₁, h₂]
  exact rest_skipFrom .comment (some '/') _

end Passes

/-- Layout is passed over. -/
theorem exists_passes {layout : Layout} {before : Option Char} {cs : List Char}
    (h : (skipFrom layout before cs).rest = []) : ∃ layout', Passes layout cs layout' := by
  fun_induction skipFrom layout before cs with
  | case1 layout => exact ⟨layout, .nil layout⟩
  | case2 before c cs hgap ih =>
    obtain ⟨layout', hpasses⟩ := ih h
    exact ⟨layout', (Passes.blank hgap).append hpasses⟩
  | case3 before c cs hgap hcomment ih =>
    cases cs with
    | nil => cases hcomment
    | cons d cs =>
      obtain ⟨rfl, rfl⟩ : c = '/' ∧ d = '/' := by simpa [startsComment] using hcomment
      obtain ⟨layout', hpasses⟩ := ih h
      exact ⟨layout', hpasses.commentStart⟩
  | case4 => cases h
  | case5 before cs ih =>
    obtain ⟨layout', hpasses⟩ := ih h
    exact ⟨layout', Passes.lineEnd.append hpasses⟩
  | case7 before cs ih =>
    obtain ⟨layout', hpasses⟩ := ih h
    exact ⟨layout', Passes.escapedLineEnd.append hpasses⟩
  | case6 before c cs hline ih =>
    obtain ⟨layout', hpasses⟩ := ih h
    exact ⟨layout', (Passes.comment (by decide : Layout.comment ≠ .gap) hline).append hpasses⟩
  | case8 before c cs hline ih =>
    obtain ⟨layout', hpasses⟩ := ih h
    exact ⟨layout', (Passes.comment (by decide : Layout.escaped ≠ .gap) hline).append hpasses⟩

theorem Spacing.passes {cs : List Char} (h : Spacing cs) : Passes .gap cs .gap := by
  induction h with
  | nil => exact .nil .gap
  | blank hc _ ih => exact (Passes.blank hc).append ih
  | @comment text cs hline hescape _ ih =>
    have htext : Passes .comment text .comment := by
      clear ih
      induction text with
      | nil => exact .nil .comment
      | cons c text ih =>
        obtain ⟨hc, hline⟩ := not_or.mp (List.mem_cons.not.mp hline)
        obtain ⟨hc', hescape⟩ := not_or.mp (List.mem_cons.not.mp hescape)
        have hafter : commentAfter c = .comment := if_neg (Ne.symm hc')
        have hchar := Passes.comment (by decide : Layout.comment ≠ .gap) (Ne.symm hc)
        rw [hafter] at hchar
        exact hchar.append (ih hline hescape)
    have hslash : Passes .comment ['/'] .comment := Passes.comment nofun (by decide)
    exact (hslash.append (htext.append (Passes.lineEnd.append ih))).commentStart

theorem opensLayout_of_stripped_eq_nil {cs : List Char} (h : stripped cs = []) (hne : cs ≠ []) :
    opensLayout cs = true := by
  by_contra hopens
  exact hne ((stripped_of_opensLayout_eq_false (Bool.eq_false_iff.mpr hopens)).symm.trans h)

/-- Layout that ends outside a comment is passed over between tokens. -/
theorem passes_of_stripped_eq_nil {old bs : List Char} (h : stripped old = [])
    (hclosed : zoneFrom .code old = .code ∨ bs = []) :
    ∃ layout, Passes .gap old layout ∧ (layout = .gap ∨ bs = []) := by
  obtain ⟨layout, hpasses⟩ := exists_passes h
  refine ⟨layout, hpasses, hclosed.imp_left fun hzone => ?_⟩
  have hend := hpasses.zone []
  rw [List.append_nil, Layout.zone, hzone] at hend
  cases layout with
  | gap => rfl
  | comment | escaped => cases hend

theorem head?_append_ne_slash {new : List Char} (h : new.head?.any isGap = true) (bs : List Char) :
    (new ++ bs).head? ≠ some '/' := by
  cases new with
  | nil => cases h
  | cons c new =>
    intro hhead
    rw [List.cons_append, List.head?_cons, Option.some_inj] at hhead
    exact (ne_of_isGap h).2.1 hhead

/-- New layout brings no tab between quotes. -/
theorem Relaid.noQuotedTab {cs ds : List Char} (h : Relaid cs ds)
    (hcs : Reader.noQuotedTab cs = true) : Reader.noQuotedTab ds = true := by
  obtain @⟨as, old, new, bs, hzone, hslash, hold, hlayout, hclosed, hnew, hblank⟩ := h
  have hslash' : as.getLast? = some '/' → (new ++ bs).head? ≠ some '/' :=
    fun _ => head?_append_ne_slash hblank bs
  rw [← List.head?_append_of_ne_nil old hold] at hslash
  rw [Reader.noQuotedTab, noQuotedTabFrom_append hslash, hzone, Bool.and_eq_true] at hcs
  obtain ⟨has, hbs⟩ := hcs
  rw [Reader.noQuotedTab, noQuotedTabFrom_append hslash', hzone, has, Bool.true_and]
  change noQuotedTabFrom Layout.gap.zone _ = true at hbs ⊢
  obtain ⟨layout, hpasses, rfl | rfl⟩ := passes_of_stripped_eq_nil hlayout hclosed
  · rw [hnew.passes.tab, ← hpasses.tab, hbs]
  · rw [hnew.passes.tab]
    rfl

end Kestrel.Reader
