/-!
# Blank characters

White space in the wide sense: the control characters that separate text (tab to carriage return and
the four information separators), the space, and every space of other scripts, including the ones
that do not break a line.

* `isBlank` — the class;
* `trimStart`, `trim` — a text without the blanks at its start, or at both ends;
* `removeBlanks` — a text without any blank.
-/

namespace Kestrel.Text

/-- The blank characters, as ranges of code points with both ends included. -/
def blankRanges : List (Nat × Nat) :=
  [(0x09, 0x0D), (0x1C, 0x20), (0x85, 0x85), (0xA0, 0xA0), (0x1680, 0x1680), (0x2000, 0x200A),
   (0x2028, 0x2029), (0x202F, 0x202F), (0x205F, 0x205F), (0x3000, 0x3000)]

/-- A character is **blank** when its code point lies in one of `blankRanges`. -/
def isBlank (c : Char) : Bool :=
  blankRanges.any fun (lo, hi) => lo ≤ c.toNat && c.toNat ≤ hi

/-- The characters from the first one that is not blank. -/
def trimStart (cs : List Char) : List Char :=
  cs.dropWhile isBlank

/-- The characters from the first to the last one that is not blank. -/
def trim (cs : List Char) : List Char :=
  (trimStart (trimStart cs).reverse).reverse

/-- The characters that are not blank, in order. -/
def removeBlanks (cs : List Char) : List Char :=
  cs.filter (!isBlank ·)

/-- There are 29 blank characters. -/
example : (blankRanges.map fun (lo, hi) => hi + 1 - lo).sum = 29 := by decide

/-- A character that is not blank stays at the start. -/
theorem head?_trim {c : Char} {cs : List Char} (hc : isBlank c = false) :
    (trim (c :: cs)).head? = some c := by
  have hstart : trimStart (c :: cs) = c :: cs := by
    rw [trimStart, List.dropWhile_cons_of_neg (by simp [hc])]
  have hlast : [c].dropWhile isBlank = [c] := List.dropWhile_cons_of_neg (by simp [hc])
  rw [trim, hstart, List.reverse_cons, trimStart, List.dropWhile_append, hlast, List.head?_reverse]
  split
  · rfl
  · rw [List.getLast?_concat]

end Kestrel.Text
