import Kestrel.Proofs.Lockstep.Statement
import Kestrel.Proofs.Lockstep.Token

/-!
# Texts that differ in layout alone

Layout is what stands between tokens: blanks and comments. Two texts are alike if they have the same
characters outside their layout, and layout in the same places. How much there is, and what is written in
the comments, makes no difference to the rules for tokens.

* `Alike` — texts that differ in layout alone;
* `Abreast` — positions with such texts behind them;
* `sameLook_abreast`, `programTokens_abreast` — the tokens are the same.
-/

namespace Kestrel.Reader

variable {cs ds : List Char}

/-! ### Texts that are alike -/

/-- The texts have the same characters outside their layout, and layout in the same places. A text between
quotes belongs to no layout; where quotes open a text that nothing closes, no token can be read, and it
does not matter what follows. -/
inductive Alike : List Char → List Char → Prop where
  /-- texts that have ended -/
  | nil : Alike [] []
  /-- the same character of a token -/
  | char {c : Char} {cs ds : List Char} (hcs : opensLayout (c :: cs) = false)
    (hds : opensLayout (c :: ds) = false) (hc : c ≠ '"') (h : Alike cs ds) : Alike (c :: cs) (c :: ds)
  /-- the same text between quotes -/
  | quoted {raw cs ds : List Char} (hcs : quoted? cs = some raw) (hds : quoted? ds = some raw)
    (h : Alike (cs.drop (raw.length + 1)) (ds.drop (raw.length + 1))) : Alike ('"' :: cs) ('"' :: ds)
  /-- texts between quotes that nothing closes -/
  | torn {cs ds : List Char} (hcs : quoted? cs = none) (hds : quoted? ds = none) :
    Alike ('"' :: cs) ('"' :: ds)
  /-- layout, and texts that are alike behind it -/
  | layout {cs ds : List Char} (hcs : opensLayout cs = true) (hds : opensLayout ds = true)
    (h : Alike (stripped cs) (stripped ds)) : Alike cs ds

/-- A character of a token that starts no layout and opens no text between quotes. -/
def isSolid (c : Char) : Bool := !isGap c && c ≠ '"' && c ≠ '/'

theorem isSolid_of_isPlain {c : Char} (h : isPlain c = true) : isSolid c = true := by
  simp only [isPlain, Bool.and_eq_true] at h
  obtain ⟨⟨⟨⟨hgap, _⟩, _⟩, hquote⟩, hslash⟩ := h
  simp only [isSolid, Bool.and_eq_true]
  exact ⟨⟨hgap, hquote⟩, hslash⟩

namespace Alike

theorem symm (h : Alike cs ds) : Alike ds cs := by
  induction h with
  | nil => exact .nil
  | char hcs hds hc _ ih => exact .char hds hcs hc ih
  | quoted hcs hds _ ih => exact .quoted hds hcs ih
  | torn hcs hds => exact .torn hds hcs
  | layout hcs hds _ ih => exact .layout hds hcs ih

/-- Layout in both texts, or in neither. -/
theorem opensLayout_eq (h : Alike cs ds) : opensLayout ds = opensLayout cs := by
  cases h with
  | nil => rfl
  | char hcs hds => rw [hcs, hds]
  | quoted | torn => rw [opensLayout_quote, opensLayout_quote]
  | layout hcs hds => rw [hcs, hds]

theorem stripped (h : Alike cs ds) : Alike (Reader.stripped cs) (Reader.stripped ds) := by
  cases hopens : opensLayout cs with
  | false =>
    have hds : opensLayout ds = false := h.opensLayout_eq.trans hopens
    rwa [stripped_of_opensLayout_eq_false hopens, stripped_of_opensLayout_eq_false hds]
  | true =>
    cases h with
    | nil => exact .nil
    | char hcs => exact absurd hopens (Bool.eq_false_iff.mp hcs)
    | quoted | torn => exact absurd hopens (Bool.eq_false_iff.mp (opensLayout_quote _))
    | layout _ _ h => exact h

/-! ### What tokens look at -/

/-- A solid character stands in both texts. -/
theorem of_isSolid {c : Char} (h : Alike (c :: cs) ds) (hc : isSolid c = true) :
    ∃ ds', ds = c :: ds' ∧ Alike cs ds' := by
  simp only [isSolid, Bool.and_eq_true, Bool.not_eq_true', decide_eq_true_eq] at hc
  obtain ⟨⟨hgap, hquote⟩, hslash⟩ := hc
  generalize hcs : c :: cs = cs' at h
  cases h with
  | nil => cases hcs
  | char _ _ _ h =>
    cases hcs
    exact ⟨_, rfl, h⟩
  | quoted | torn =>
    cases hcs
    exact absurd rfl hquote
  | layout hopens =>
    rw [← hcs, opensLayout_cons.mpr ⟨hgap, startsComment_of_ne hslash⟩] at hopens
    cases hopens

/-- The same words of solid characters stand in both texts. -/
theorem isPrefixOf_eq {w : List Char} (h : Alike cs ds) (hw : w.all isSolid) :
    w.isPrefixOf ds = w.isPrefixOf cs ∧
      (w.isPrefixOf cs → Alike (cs.drop w.length) (ds.drop w.length)) := by
  induction w generalizing cs ds with
  | nil => exact ⟨by rw [List.isPrefixOf_nil_left, List.isPrefixOf_nil_left], fun _ => h⟩
  | cons x w ih =>
    rw [List.all_cons, Bool.and_eq_true] at hw
    by_cases hx : ∃ cs', cs = x :: cs'
    · obtain ⟨cs', rfl⟩ := hx
      obtain ⟨ds', rfl, h'⟩ := h.of_isSolid hw.1
      simpa using ih h' hw.2
    · have hds : ¬∃ ds', ds = x :: ds' := by
        rintro ⟨ds', rfl⟩
        obtain ⟨cs', rfl, _⟩ := h.symm.of_isSolid hw.1
        exact hx ⟨cs', rfl⟩
      have hno (es : List Char) (hes : ¬∃ es', es = x :: es') : (x :: w).isPrefixOf es = false := by
        cases es with
        | nil => rfl
        | cons e es =>
          have he : (x == e) = false := beq_eq_false_iff_ne.mpr fun he => hes ⟨es, he ▸ rfl⟩
          rw [List.isPrefixOf_cons_cons, he, Bool.false_and]
      rw [hno cs hx, hno ds hds]
      exact ⟨rfl, nofun⟩

theorem takeWhile_eq_nil {p : Char → Bool} (hp : ∀ x, p x = true → isSolid x = true)
    (h : Alike cs ds) (hcs : cs.takeWhile p = []) : ds.takeWhile p = [] := by
  cases ds with
  | nil => rfl
  | cons d ds =>
    cases hd : p d with
    | false =>
      rw [List.takeWhile_cons, hd]
      rfl
    | true =>
      obtain ⟨cs', rfl, _⟩ := h.symm.of_isSolid (hp d hd)
      rw [List.takeWhile_cons, if_pos hd] at hcs
      cases hcs

/-- The same rows of solid characters stand in both texts. -/
theorem takeWhile_eq {p : Char → Bool} (hp : ∀ x, p x = true → isSolid x = true)
    (h : Alike cs ds) :
    ds.takeWhile p = cs.takeWhile p ∧
      Alike (cs.drop (cs.takeWhile p).length) (ds.drop (cs.takeWhile p).length) := by
  have hstop (es fs : List Char) (h : Alike es fs) (hnil : es.takeWhile p = []) :
      fs.takeWhile p = es.takeWhile p ∧
        Alike (es.drop (es.takeWhile p).length) (fs.drop (es.takeWhile p).length) := by
    rw [h.takeWhile_eq_nil hp hnil, hnil]
    exact ⟨rfl, h⟩
  induction cs generalizing ds with
  | nil => exact hstop [] ds h rfl
  | cons c cs ih =>
    cases hc : p c with
    | false =>
      refine hstop (c :: cs) ds h ?_
      rw [List.takeWhile_cons, hc]
      rfl
    | true =>
      obtain ⟨ds', rfl, h'⟩ := h.of_isSolid (hp c hc)
      obtain ⟨htake, hdrop⟩ := ih h'
      rw [List.takeWhile_cons, List.takeWhile_cons, if_pos hc, if_pos hc, htake]
      exact ⟨rfl, hdrop⟩

theorem head?_any_eq {p : Char → Bool} (hp : ∀ x, p x = true → isSolid x = true)
    (h : Alike cs ds) : ds.head?.any p = cs.head?.any p := by
  rw [Reader.head?_any_eq, Reader.head?_any_eq, (h.takeWhile_eq hp).1]

/-- Where no layout starts, both texts have ended, or they have the same first character. -/
theorem head?_eq (h : Alike cs ds) (hcs : opensLayout cs = false) : ds.head? = cs.head? := by
  cases h with
  | nil | char | quoted | torn => rfl
  | layout hopens => exact absurd hopens (Bool.eq_false_iff.mp hcs)

/-- A slash that begins no comment may be read. -/
theorem drop_slash (h : Alike cs ds) (hcs : opensLayout cs = false)
    (hslash : "/".toList.isPrefixOf cs) : Alike (cs.drop 1) (ds.drop 1) := by
  cases h with
  | nil => exact .nil
  | char _ _ _ h => exact h
  | quoted | torn => cases hslash
  | layout hopens => exact absurd hopens (Bool.eq_false_iff.mp hcs)

end Alike

/-! ### Positions -/

/-- The texts at the two positions differ in layout alone, and a word that starts there is cut off from
what is in front of it in both or in neither. -/
structure Abreast (c d : Cursor) : Prop where
  /-- what is behind the layout -/
  rest : Alike c.skip.rest d.skip.rest
  /-- what is in front -/
  word : c.skip.rest ≠ [] → d.skip.before.any isWordChar = c.skip.before.any isWordChar

namespace Abreast

variable {c d : Cursor}

theorem of_rest (h : Alike c.rest d.rest)
    (hword : d.before.any isWordChar = c.before.any isWordChar) : Abreast c d := by
  have hrest : Alike c.skip.rest d.skip.rest := by
    rw [skip_rest, skip_rest]
    exact h.stripped
  refine ⟨hrest, fun hne => ?_⟩
  cases hopens : opensLayout c.rest with
  | false =>
    rw [Cursor.skip, Cursor.skip, skipFrom_of_opensLayout_eq_false hopens,
      skipFrom_of_opensLayout_eq_false (h.opensLayout_eq.trans hopens)]
    exact hword
  | true =>
    have hne' : d.skip.rest ≠ [] := by
      intro hnil
      rw [hnil] at hrest
      generalize hc : c.skip.rest = cs at hrest
      cases hrest with
      | nil => exact hne hc
      | layout _ hopens => cases hopens
    have hc := skipFrom_before_isWordChar .gap c.before c.rest (.inr (.inl hopens))
    have hd := skipFrom_before_isWordChar .gap d.before d.rest
      (.inr (.inl (h.opensLayout_eq.trans hopens)))
    exact (hd.resolve_left hne').trans (hc.resolve_left hne).symm

/-- Behind the same characters. -/
theorem advance {w : List Char} (hw : w ≠ [])
    (hc : c.skip.rest.take w.length = w) (hd : d.skip.rest.take w.length = w)
    (hdrop : Alike (c.skip.rest.drop w.length) (d.skip.rest.drop w.length)) :
    Abreast (c.skip.advance w.length) (d.skip.advance w.length) := by
  refine of_rest hdrop ?_
  rw [Cursor.advance, Cursor.advance, hc, hd, List.getLast?_eq_some_getLast hw]
  rfl

theorem take_isPrefixOf {w cs : List Char} (h : w.isPrefixOf cs) : cs.take w.length = w :=
  (List.prefix_iff_eq_take.mp (List.isPrefixOf_iff_prefix.mp h)).symm

/-- Behind a word of solid characters. -/
theorem advance_word (h : Abreast c d) {w : List Char} (hw : w.all isSolid) (hne : w ≠ [])
    (hstarts : w.isPrefixOf c.skip.rest) :
    Abreast (c.skip.advance w.length) (d.skip.advance w.length) := by
  obtain ⟨heq, hdrop⟩ := h.rest.isPrefixOf_eq hw
  exact advance hne (take_isPrefixOf hstarts) (take_isPrefixOf (heq.trans hstarts)) (hdrop hstarts)

theorem keywordAt (h : Abreast c d) (k : Keyword) : keywordAt k d.skip = keywordAt k c.skip := by
  have hsolid : k.text.toList.all isSolid := List.all_eq_true.mpr fun x hx =>
    isSolid_of_isPlain (List.all_eq_true.mp (isPlain_keyword k) x hx)
  obtain ⟨heq, hdrop⟩ := h.rest.isPrefixOf_eq hsolid
  rw [Reader.keywordAt, Reader.keywordAt, heq]
  cases hstarts : k.text.toList.isPrefixOf c.skip.rest with
  | false => rfl
  | true =>
    have hne : c.skip.rest ≠ [] := by
      intro hnil
      rw [hnil] at hstarts
      cases k <;> cases hstarts
    rw [h.word hne, (hdrop hstarts).head?_any_eq fun _ hx => isSolid_of_isPlain (isPlain_of (by decide) hx)]

theorem slash (h : Abreast c d) :
    "/".toList.isPrefixOf d.skip.rest = "/".toList.isPrefixOf c.skip.rest := by
  have hhead := h.rest.head?_eq (opensLayout_skip c)
  have hslash (cs : List Char) : "/".toList.isPrefixOf cs = (cs.head? == some '/') := by
    cases cs with
    | nil => rfl
    | cons x xs => exact (Bool.and_true _).trans (BEq.comm)
  rw [hslash, hslash, hhead]

/-! ### Texts between quotes -/

theorem matches_string (h : Abreast c d) : Matches Abreast (string c) (string d) := by
  have hopens := opensLayout_skip c
  have hadvance {w : List Char} := advance (c := c) (d := d) (w := w)
  have hrest := h.rest
  generalize hc : c.skip.rest = cs at hrest hopens hadvance
  generalize hd : d.skip.rest = ds at hrest hadvance
  cases hrest with
  | nil =>
    rw [string_eq_no (by rw [hc]; nofun), string_eq_no (by rw [hd]; nofun)]
    exact .no
  | char _ _ hquote =>
    rw [string_eq_no (by simpa [hc] using hquote), string_eq_no (by simpa [hd] using hquote)]
    exact .no
  | torn hcs hds =>
    rw [string_eq hc, string_eq hd, hcs, hds]
    exact .no
  | quoted hcs hds hdrop =>
    rename_i raw _ _
    rw [string_eq hc, string_eq hd, hcs, hds]
    have hlength : raw.length + 2 = ('"' :: (raw ++ ['"'])).length := by simp
    dsimp only
    rw [hlength]
    refine .ok _ (hadvance (List.cons_ne_nil _ _) ?_ ?_ ?_)
    · rw [← hlength, List.take_succ_cons, take_of_quoted? hcs]
    · rw [← hlength, List.take_succ_cons, take_of_quoted? hds]
    · rw [← hlength]
      exact hdrop
  | layout hcs => exact absurd hcs (Bool.eq_false_iff.mp hopens)

end Abreast

theorem all_isSolid {w : List Char} (h : w.all isPlain) : w.all isSolid :=
  List.all_eq_true.mpr fun x hx => isSolid_of_isPlain (List.all_eq_true.mp h x hx)

/-- Texts that differ in layout alone look the same to the rules for tokens. -/
theorem sameLook_abreast : SameLook Abreast where
  isPrefixOf h _ hw := (h.rest.isPrefixOf_eq (all_isSolid hw)).1
  advance_word h _ hw hne hstarts := h.advance_word (all_isSolid hw) hne hstarts
  takeWhile h _ hp := (h.rest.takeWhile_eq fun x hx => isSolid_of_isPlain (hp x hx)).1
  advance_row {c d} h p hp hne := by
    obtain ⟨heq, hdrop⟩ := h.rest.takeWhile_eq fun x hx => isSolid_of_isPlain (hp x hx)
    have htake (cs : List Char) : cs.take (cs.takeWhile p).length = cs.takeWhile p :=
      (List.prefix_iff_eq_take.mp (List.takeWhile_prefix p)).symm
    refine Abreast.advance hne (htake _) ?_ hdrop
    rw [← heq]
    exact htake _
  keywordAt h k := h.keywordAt k
  slash h := h.slash
  advance_slash {c d} h hstarts :=
    Abreast.advance (w := "/".toList) (by decide) (Abreast.take_isPrefixOf hstarts)
      (Abreast.take_isPrefixOf (h.slash.trans hstarts))
      (h.rest.drop_slash (opensLayout_skip c) hstarts)
  string h := h.matches_string

/-- Programs are made of tokens that are the same where texts differ in layout alone. -/
theorem programTokens_abreast : ProgramTokens Abreast where
  toExpressionTokens := sameLook_abreast.expressionTokens
  mark {s} hs c d h := by
    have hword (w : String) (hw : w.toList.all isSolid) (hne : w.toList ≠ []) :
        Matches Abreast (symbol w c) (symbol w d) := by
      rw [symbol, symbol, (h.rest.isPrefixOf_eq hw).1]
      split
      next hstarts => exact .ok () (h.advance_word hw hne hstarts)
      next => exact .no
    simp only [statementSigns, List.mem_cons, List.not_mem_nil, or_false] at hs
    rcases hs with rfl | rfl | rfl | rfl <;> exact hword _ (by decide) (by decide)
  assignSign h := sameLook_abreast.matches_assignSign h

end Kestrel.Reader
