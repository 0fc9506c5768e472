import Kestrel.Proofs.Lockstep.Lexical
import Kestrel.Proofs.Written.Tabs

/-!
# Where a text ends

Whether a character of a program belongs to a comment depends on all that stands before it. Two slashes
begin a comment, except in a text between quotes, and quotes begin no text in a comment. A text between
quotes ends with the next quote that no backslash escapes, and a comment with the next line feed that no
backslash escapes.

* `Zone`, `zoneFrom` — what the end of a text belongs to;
* `Sealed` — the text ends with a semicolon or a closing brace, and not in a comment;
* `SealedFrom.skipFrom` — blanks and comments in such a text end before its last character, and what
  comes after it is left alone;
* `SealedFrom.expandTabsFrom` — tabs make no difference.
-/

namespace Kestrel.Reader

open Text

/-- What a character of a program belongs to. -/
inductive Zone where
  /-- tokens and blanks, but for texts between quotes -/
  | code
  /-- a text between quotes -/
  | quoted
  /-- a text between quotes, right after a backslash -/
  | quotedEscape
  /-- a comment -/
  | comment
  /-- a comment, right after a backslash -/
  | commentEscape
  deriving DecidableEq, Repr

/-- Is it a part of a comment? -/
def Zone.isComment : Zone → Bool
  | code | quoted | quotedEscape => false
  | comment | commentEscape => true

/-- How a comment goes on after a character that does not end it. -/
def Zone.commentAfter (c : Char) : Zone :=
  if c = '\\' then commentEscape else comment

/-- What the end of a text belongs to, if its start belongs to `zone`. -/
def zoneFrom (zone : Zone) : List Char → Zone
  | [] => zone
  | c :: cs =>
    match zone with
    | .code =>
      if c = '"' then zoneFrom .quoted cs
      else if startsComment (c :: cs) then zoneFrom .comment cs
      else zoneFrom .code cs
    | .quoted =>
      if c = '"' then zoneFrom .code cs
      else if c = '\\' then zoneFrom .quotedEscape cs
      else zoneFrom .quoted cs
    | .quotedEscape => zoneFrom .quoted cs
    | .comment => if c = '\n' then zoneFrom .code cs else zoneFrom (Zone.commentAfter c) cs
    | .commentEscape => if c = '\n' then zoneFrom .comment cs else zoneFrom (Zone.commentAfter c) cs

/-- A semicolon or a closing brace. -/
def isSeal (c : Char) : Bool := c = ';' || c = '}'

/-- The text, whose start belongs to `zone`, ends with a semicolon or a closing brace, and not in a
comment. -/
structure SealedFrom (zone : Zone) (cs : List Char) : Prop where
  /-- the last character -/
  last : cs.getLast?.any isSeal
  /-- what it belongs to -/
  open_end : (zoneFrom zone cs).isComment = false

/-- The last character of the text is a semicolon or a closing brace that is not inside a comment. -/
abbrev Sealed (cs : List Char) : Prop := SealedFrom .code cs

instance (zone : Zone) (cs : List Char) : Decidable (SealedFrom zone cs) :=
  decidable_of_iff (cs.getLast?.any isSeal ∧ (zoneFrom zone cs).isComment = false)
    ⟨fun h => ⟨h.1, h.2⟩, fun h => ⟨h.last, h.open_end⟩⟩

/-- Two slashes in a text between quotes begin no comment; after it they do. -/
example : Sealed "x = \"//\";".toList ∧ ¬Sealed "x = \"/\"; // y;".toList := by decide +kernel

theorem zoneFrom_code {c : Char} {cs : List Char} (hquote : c ≠ '"')
    (hcomment : startsComment (c :: cs) = false) : zoneFrom .code (c :: cs) = zoneFrom .code cs := by
  rw [zoneFrom, if_neg hquote, hcomment]
  rfl

theorem zoneFrom_startsComment {c : Char} {cs : List Char} (h : startsComment (c :: cs) = true) :
    zoneFrom .code (c :: cs) = zoneFrom .comment cs := by
  have hquote : c ≠ '"' := by
    rintro rfl
    rw [startsComment_of_ne (by decide)] at h
    cases h
  rw [zoneFrom, if_neg hquote, if_pos h]

namespace SealedFrom

variable {zone : Zone} {c : Char} {cs : List Char}

theorem ne_nil (h : SealedFrom zone cs) : cs ≠ [] := by
  rintro rfl
  cases h.last

/-- After a character there is nothing or the rest, which ends in the same way. -/
theorem tail {zone' : Zone} (h : SealedFrom zone (c :: cs))
    (hzone : zoneFrom zone (c :: cs) = zoneFrom zone' cs) : cs = [] ∨ SealedFrom zone' cs := by
  cases cs with
  | nil => exact .inl rfl
  | cons d ds =>
    refine .inr ⟨?_, hzone ▸ h.open_end⟩
    rw [← List.getLast?_cons_cons (a := c)]
    exact h.last

/-- After a character that is no seal there is a rest. -/
theorem tail_of_not_isSeal {zone' : Zone} (h : SealedFrom zone (c :: cs)) (hc : isSeal c = false)
    (hzone : zoneFrom zone (c :: cs) = zoneFrom zone' cs) : SealedFrom zone' cs := by
  rcases h.tail hzone with rfl | htail
  · have hlast := h.last
    rw [List.getLast?_singleton, Option.any_some, hc] at hlast
    cases hlast
  · exact htail

end SealedFrom

/-! ### Blanks and comments -/

/-- Where blanks and comments are read. -/
def Layout.zone : Layout → Zone
  | gap => .code
  | comment => .comment
  | escaped => .commentEscape

theorem zone_commentAfter (c : Char) : (commentAfter c).zone = Zone.commentAfter c := by
  rw [commentAfter, Zone.commentAfter]
  split <;> rfl

theorem zoneFrom_comment {c : Char} {cs : List Char} (hc : c ≠ '\n') :
    zoneFrom Layout.comment.zone (c :: cs) = zoneFrom (commentAfter c).zone cs := by
  rw [zone_commentAfter, Layout.zone, zoneFrom, if_neg hc]

theorem zoneFrom_commentEscape {c : Char} {cs : List Char} (hc : c ≠ '\n') :
    zoneFrom Layout.escaped.zone (c :: cs) = zoneFrom (commentAfter c).zone cs := by
  rw [zone_commentAfter, Layout.zone, zoneFrom, if_neg hc]

theorem ne_of_isGap {c : Char} (h : isGap c = true) : c ≠ '"' ∧ c ≠ '/' ∧ isSeal c = false := by
  simp only [isGap, Bool.or_eq_true, decide_eq_true_eq] at h
  rcases h with ((rfl | rfl) | rfl) | rfl <;> decide

theorem isSeal_of_startsComment {c : Char} {cs : List Char} (h : startsComment (c :: cs) = true) :
    isSeal c = false := by
  by_cases hc : c = '/'
  · subst hc
    rfl
  · rw [startsComment_of_ne hc] at h
    cases h

/-- The last character of a sealed text begins no comment with what comes after it. -/
theorem SealedFrom.startsComment_append {zone : Zone} {cs : List Char} (h : SealedFrom zone cs)
    (t : List Char) : startsComment (cs ++ t) = startsComment cs := by
  cases cs with
  | nil => exact absurd rfl h.ne_nil
  | cons c cs =>
    cases cs with
    | nil =>
      have hc : c ≠ '/' := by
        rintro rfl
        cases h.last
      rw [List.cons_append, startsComment_of_ne hc, startsComment_of_ne hc]
    | cons d ds => rfl

/-- A comment that goes on after a character does not end the text there. -/
theorem SealedFrom.tail_of_comment {layout : Layout} {c : Char} {cs : List Char}
    (h : SealedFrom layout.zone (c :: cs))
    (hzone : zoneFrom layout.zone (c :: cs) = zoneFrom (commentAfter c).zone cs) :
    SealedFrom (commentAfter c).zone cs := by
  rcases h.tail hzone with rfl | htail
  · have hopen := h.open_end
    rw [hzone, zoneFrom, zone_commentAfter, Zone.commentAfter] at hopen
    split at hopen <;> cases hopen
  · exact htail

/-- What is skipped ends before the last character, and is the same in front of any further text. -/
theorem SealedFrom.skipFrom {layout : Layout} {cs : List Char} (h : SealedFrom layout.zone cs)
    (before : Option Char) :
    Sealed (skipFrom layout before cs).rest ∧ ∀ t, Reader.skipFrom layout before (cs ++ t) =
      ⟨(Reader.skipFrom layout before cs).before, (Reader.skipFrom layout before cs).rest ++ t⟩ := by
  fun_induction Reader.skipFrom layout before cs with
  | case1 => exact absurd rfl h.ne_nil
  | case2 before c cs hgap ih =>
    obtain ⟨hquote, hslash, hseal⟩ := ne_of_isGap hgap
    have hcomment : startsComment (c :: cs) = false := startsComment_of_ne hslash
    have hzone := zoneFrom_code hquote hcomment
    obtain ⟨hsealed, happend⟩ := ih (h.tail_of_not_isSeal hseal hzone)
    refine ⟨hsealed, fun t => ?_⟩
    rw [List.cons_append, Reader.skipFrom, if_pos hgap, happend]
  | case3 before c cs hgap hcomment ih =>
    have htail : SealedFrom .comment cs :=
      h.tail_of_not_isSeal (isSeal_of_startsComment hcomment) (zoneFrom_startsComment hcomment)
    obtain ⟨hsealed, happend⟩ := ih htail
    refine ⟨hsealed, fun t => ?_⟩
    rw [← h.startsComment_append t, List.cons_append] at hcomment
    rw [List.cons_append, Reader.skipFrom, if_neg hgap, if_pos hcomment, happend]
  | case4 before c cs hgap hcomment =>
    refine ⟨h, fun t => ?_⟩
    rw [List.cons_append, Reader.skipFrom, if_neg hgap, if_neg]
    rwa [← List.cons_append, h.startsComment_append]
  | case5 c cs ih =>
    obtain ⟨hsealed, happend⟩ := ih (h.tail_of_not_isSeal (by decide) rfl)
    refine ⟨hsealed, fun t => ?_⟩
    rw [List.cons_append, Reader.skipFrom, if_pos rfl, happend]
  | case6 _ c cs hline ih =>
    obtain ⟨hsealed, happend⟩ := ih (h.tail_of_comment (zoneFrom_comment hline))
    refine ⟨hsealed, fun t => ?_⟩
    rw [List.cons_append, Reader.skipFrom, if_neg hline, happend]
  | case7 c cs ih =>
    obtain ⟨hsealed, happend⟩ := ih (h.tail_of_not_isSeal (by decide) rfl)
    refine ⟨hsealed, fun t => ?_⟩
    rw [List.cons_append, Reader.skipFrom, if_pos rfl, happend]
  | case8 _ c cs hline ih =>
    obtain ⟨hsealed, happend⟩ := ih (h.tail_of_comment (zoneFrom_commentEscape hline))
    refine ⟨hsealed, fun t => ?_⟩
    rw [List.cons_append, Reader.skipFrom, if_neg hline, happend]

/-! ### Tabs -/

/-- Spaces leave a zone that no backslash has just opened. -/
theorem zoneFrom_spaces {zone : Zone} (h : zone = .code ∨ zone = .quoted ∨ zone = .comment) (n : Nat)
    (cs : List Char) : zoneFrom zone (List.replicate n ' ' ++ cs) = zoneFrom zone cs := by
  induction n with
  | zero => rfl
  | succ n ih =>
    rw [List.replicate_succ, List.cons_append]
    rcases h with rfl | rfl | rfl
    · rw [zoneFrom_code (by decide) (startsComment_of_ne (by decide)), ih]
    · rw [← ih]
      rfl
    · rw [← ih]
      rfl

/-- A tab belongs to what a space there would belong to. -/
theorem zoneFrom_tab (zone : Zone) (n : Nat) (cs : List Char) :
    zoneFrom zone (' ' :: (List.replicate n ' ' ++ cs)) = zoneFrom zone ('\t' :: cs) := by
  cases zone with
  | code =>
    rw [zoneFrom_code (by decide) (startsComment_of_ne (by decide)),
      zoneFrom_code (by decide) (startsComment_of_ne (by decide)), zoneFrom_spaces (.inl rfl)]
  | quoted | quotedEscape => exact zoneFrom_spaces (.inr (.inl rfl)) n cs
  | comment | commentEscape => exact zoneFrom_spaces (.inr (.inr rfl)) n cs

theorem startsComment_expandTabsFrom (c : Char) (column : Nat) (cs : List Char) :
    startsComment (c :: expandTabsFrom column cs) = startsComment (c :: cs) := by
  cases cs with
  | nil => rfl
  | cons d ds =>
    by_cases hd : d = '\t'
    · subst hd
      obtain ⟨n, column', h⟩ := Written.exists_expandTabsFrom_tab column
      rw [h]
      simp [startsComment]
    · obtain ⟨column', h⟩ := Written.exists_expandTabsFrom_cons hd column
      rw [h]
      rfl

/-- What the end of a text belongs to does not depend on its tabs. -/
theorem zoneFrom_expandTabsFrom (zone : Zone) (column : Nat) (cs : List Char) :
    zoneFrom zone (expandTabsFrom column cs) = zoneFrom zone cs := by
  induction cs generalizing zone column with
  | nil => rfl
  | cons c cs ih =>
    by_cases hc : c = '\t'
    · subst hc
      obtain ⟨n, column', h⟩ := Written.exists_expandTabsFrom_tab column
      rw [h, zoneFrom_tab]
      cases zone with
      | code =>
        rw [zoneFrom_code (by decide) (startsComment_of_ne (by decide)),
          zoneFrom_code (by decide) (startsComment_of_ne (by decide)), ih]
      | _ => exact ih _ column'
    · obtain ⟨column', h⟩ := Written.exists_expandTabsFrom_cons hc column
      rw [h]
      cases zone <;> simp only [zoneFrom, startsComment_expandTabsFrom, ih]

/-- A text is sealed if it is with its tabs replaced. -/
theorem SealedFrom.expandTabsFrom {zone : Zone} {cs : List Char} (h : SealedFrom zone cs)
    (column : Nat) : SealedFrom zone (expandTabsFrom column cs) := by
  refine ⟨?_, (zoneFrom_expandTabsFrom zone column cs).symm ▸ h.open_end⟩
  have hlast := h.last
  obtain ⟨ds, z, rfl⟩ := (List.eq_nil_or_concat cs).resolve_left h.ne_nil
  have hz : z ≠ '\t' := by
    rintro rfl
    simp [isSeal] at hlast
  obtain ⟨column₁, h₁⟩ := Written.exists_expandTabsFrom_append column ds
  obtain ⟨column₂, h₂⟩ := Written.exists_expandTabsFrom_cons hz column₁
  rw [List.concat_eq_append, h₁, h₂]
  simpa [Text.expandTabsFrom] using hlast

end Kestrel.Reader
