import Kestrel.Template.Segment
import Mathlib.Data.List.Chain
import Mathlib.Data.List.Infix

/-!
# Templates as they are written

A template is written segment by segment: texts as they are, and placeholders in their braces. In a text
there is no dollar sign with an opening brace behind it, so nothing in it starts a placeholder, whatever
dollar signs and braces there are otherwise. Hence the segments are found again, except for the texts that
are empty.

* `Segment.spell`, `Segment.Proper`, `Apart` — the characters of a segment, and what is required of
  segments in a row;
* `segmentsFrom_text`, `segmentsFrom_placeholder` — the scan goes past a text, and it takes a placeholder;
* `segments_spell` — the segments of what is written.
-/

namespace Kestrel.Template

namespace Segment

/-- The characters of a segment. -/
def spell : Segment → List Char
  | text chars => chars
  | placeholder inner => '$' :: '{' :: (inner ++ ['}'])

/-- No placeholder starts in a text. The inside of a placeholder is not empty, and it has no closing
brace. -/
def Proper : Segment → Prop
  | text chars => ¬['$', '{'] <:+: chars
  | placeholder inner => inner ≠ [] ∧ '}' ∉ inner

instance : DecidablePred Proper
  | text chars => inferInstanceAs (Decidable (¬['$', '{'] <:+: chars))
  | placeholder inner => inferInstanceAs (Decidable (inner ≠ [] ∧ '}' ∉ inner))

/-- The segment is a text. -/
def isText : Segment → Bool
  | text _ => true
  | placeholder _ => false

end Segment

/-- The characters of segments in a row. -/
def spell (ss : List Segment) : List Char := ss.flatMap Segment.spell

/-- There is a placeholder between any two texts. -/
def Apart (ss : List Segment) : Prop := ss.IsChain fun s t => s.isText → ¬t.isText

instance (ss : List Segment) : Decidable (Apart ss) :=
  inferInstanceAs (Decidable (ss.IsChain fun s t => s.isText → ¬t.isText))

/-! ### The scan -/

/-- What belongs to a placeholder already found is passed over. -/
theorem segmentsFrom_length (done xs rest : List Char) :
    segmentsFrom xs.length done (xs ++ rest) = segmentsFrom 0 done rest := by
  induction xs with
  | nil => rfl
  | cons x xs ih => exact ih

theorem placeholder?_spell {inner : List Char} (h : (Segment.placeholder inner).Proper)
    (rest : List Char) : placeholder? ((Segment.placeholder inner).spell ++ rest) = some inner := by
  obtain ⟨hne, hbrace⟩ := h
  have hinner : ∀ c ∈ inner, isInner c = true := fun c hc =>
    decide_eq_true fun heq => hbrace (heq ▸ hc)
  have htake : (inner ++ '}' :: rest).takeWhile isInner = inner := by
    rw [List.takeWhile_append_of_pos hinner]
    exact List.append_nil inner
  have hdrop : (inner ++ '}' :: rest).dropWhile isInner = '}' :: rest := by
    rw [List.dropWhile_append_of_pos hinner]
    rfl
  have hspell : (Segment.placeholder inner).spell ++ rest = '$' :: '{' :: (inner ++ '}' :: rest) := by
    simp [Segment.spell]
  rw [hspell, placeholder?, htake, hdrop, if_pos ⟨hne, List.cons_ne_nil _ _⟩]

theorem segmentsFrom_placeholder {inner : List Char} (h : (Segment.placeholder inner).Proper)
    (done rest : List Char) :
    segmentsFrom 0 done ((Segment.placeholder inner).spell ++ rest) =
      textSegment done ++ .placeholder inner :: segmentsFrom 0 [] rest := by
  have hfound := placeholder?_spell h rest
  have hpast := segmentsFrom_length [] ('{' :: (inner ++ ['}'])) rest
  have hlength : ('{' :: (inner ++ ['}'])).length = inner.length + 2 := by simp
  rw [Segment.spell, List.cons_append] at hfound ⊢
  rw [segmentsFrom, hfound, ← hpast, hlength]

theorem placeholder?_eq_none {c : Char} {cs : List Char} (h : ¬['$', '{'] <+: c :: cs) :
    placeholder? (c :: cs) = none := by
  rw [placeholder?.eq_def]
  split
  case h_2 => rfl
  case h_1 heq =>
    cases heq
    exact absurd ⟨_, rfl⟩ h

/-- The scan goes past a text, unless the next character makes a placeholder of its last one. -/
theorem segmentsFrom_text {chars rest : List Char} (h : ¬['$', '{'] <:+: chars)
    (hrest : rest.head? ≠ some '{') (done : List Char) :
    segmentsFrom 0 done (chars ++ rest) = segmentsFrom 0 (chars.reverse ++ done) rest := by
  induction chars generalizing done with
  | nil => rfl
  | cons c chars ih =>
    obtain ⟨hc, hchars⟩ := not_or.mp (mt List.infix_cons_iff.mpr h)
    have hstart : ¬['$', '{'] <+: c :: (chars ++ rest) := by
      rw [List.cons_prefix_cons] at hc ⊢
      rintro ⟨hdollar, hbrace⟩
      cases chars with
      | nil =>
        obtain ⟨cs, rfl⟩ := hbrace
        exact hrest rfl
      | cons d chars =>
        have hd := (List.cons_prefix_cons.mp hbrace).1
        exact hc ⟨hdollar, List.cons_prefix_cons.mpr ⟨hd, List.nil_prefix⟩⟩
    rw [List.cons_append, segmentsFrom, placeholder?_eq_none hstart, List.reverse_cons,
      List.append_assoc]
    exact ih hchars (c :: done)

/-- A template in which no placeholder starts is a text. -/
theorem segments_of_not_infix {chars : List Char} (h : ¬['$', '{'] <:+: chars) :
    segments chars = textSegment chars.reverse := by
  have hend : ([] : List Char).head? ≠ some '{' := nofun
  have hscan := segmentsFrom_text h hend []
  rwa [List.append_nil, List.append_nil] at hscan

/-! ### The segments of what is written -/

/-- Segments in a row that do not begin with a text do not begin with a brace. -/
theorem head?_spell {ss : List Segment} (h : ∀ s ∈ ss.head?, ¬s.isText) :
    (spell ss).head? ≠ some '{' := by
  rcases ss with _ | ⟨_ | _, ss⟩
  · nofun
  · exact absurd rfl (h _ rfl)
  · simp [spell, Segment.spell]

/-- Where no text follows, the text that ends there is a segment by itself. -/
theorem segmentsFrom_spell {ss : List Segment} (hproper : ∀ s ∈ ss, s.Proper)
    (h : ∀ s ∈ ss.head?, ¬s.isText) (done : List Char) :
    segmentsFrom 0 done (spell ss) = textSegment done ++ segments (spell ss) := by
  rcases ss with _ | ⟨_ | inner, ss⟩
  · exact (List.append_nil _).symm
  · exact absurd rfl (h _ rfl)
  · have hinner := hproper _ List.mem_cons_self
    rw [spell, List.flatMap_cons, segments, segmentsFrom_placeholder hinner,
      segmentsFrom_placeholder hinner]
    rfl

/-- The segments of what is written are found again. -/
theorem segments_spell {ss : List Segment} (hproper : ∀ s ∈ ss, s.Proper) (hapart : Apart ss) :
    segments (spell ss) = ss.filter (· ≠ .text []) := by
  induction ss with
  | nil => rfl
  | cons s ss ih =>
    obtain ⟨hs, hss⟩ := List.forall_mem_cons.mp hproper
    obtain ⟨hnext, hapart⟩ := List.isChain_cons.mp hapart
    have hrest := ih hss hapart
    cases s with
    | text chars =>
      -- the text ends where the next placeholder starts, or with the template
      have hplaceholder : ∀ t ∈ ss.head?, ¬t.isText := fun t ht => hnext t ht rfl
      have hscan : segments (spell (.text chars :: ss)) =
          textSegment chars.reverse ++ segments (spell ss) := by
        rw [← segmentsFrom_spell hss hplaceholder, ← List.append_nil chars.reverse]
        exact segmentsFrom_text hs (head?_spell hplaceholder) []
      rw [hscan, hrest, textSegment, List.isEmpty_reverse, List.reverse_reverse]
      cases chars with
      | nil => rfl
      | cons c chars => rfl
    | placeholder inner =>
      have hscan : segments (spell (.placeholder inner :: ss)) =
          .placeholder inner :: segments (spell ss) :=
        segmentsFrom_placeholder hs [] (spell ss)
      rw [hscan, hrest]
      rfl

end Kestrel.Template
