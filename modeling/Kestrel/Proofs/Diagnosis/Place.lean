import Kestrel.Proofs.Diagnosis.Lines
import Kestrel.Reader.Program

/-!
# Where a report points

A text is read with its tabs replaced, and what stands at fault is then looked up in the text as it was
written, in the line and the column of the other one. The lines of the two are the same but for their tabs.
So a report always names a place of the text with its tabs replaced, and it names one of the text itself as
long as no tab stands in front of it.

* `ParseError.Located`, `ParseError.Quotes` — what a report says about a place, and about what stands there;
* `found_of_line`, `found_ne_endOfInput` — what is found at a place;
* `parseError_located` — where a report points;
* `parseProgram_fault_behind_tab` — a fault behind a tab.
-/

namespace Kestrel

open Diagnosis Text

/-! ### What a report says -/

namespace ParseError

/-- The report names the place behind the first `n` characters of the text. -/
structure Located (e : ParseError) (cs : List Char) (n : Nat) : Prop where
  /-- there are so many characters -/
  le_length : n ≤ cs.length
  /-- how many characters are in front of the place -/
  location : e.location = n
  /-- one line more than there are line feeds in front -/
  line : e.line = 1 + (cs.take n).count '\n'
  /-- one column more than there are characters between the last line feed in front and the place -/
  column : e.column = 1 + ((cs.take n).reverse.takeWhile (· ≠ '\n')).length

/-- What the report has found at its place starts with the character `c`. -/
def Quotes (e : ParseError) (c : Char) : Prop :=
  ∃ more, e.got = some ("'" ++ String.ofList (c :: more) ++ "'")

end ParseError

/-! ### What is found -/

namespace Diagnosis

variable {cs front after : List Char} {c : Char} {i : Nat}

theorem exists_trim_cons (hc : isBlank c = false) (cs : List Char) :
    ∃ more, trim (c :: cs) = c :: more := by
  have hhead : (trim (c :: cs)).head? = some c := head?_trim hc
  obtain ⟨more, h⟩ := List.head?_eq_some_iff.mp hhead
  exact ⟨more, h⟩

/-- Where a character that is not blank stands in a line, it is what is found first. -/
theorem found_of_line (hline : (lines cs)[i]? = some (front ++ c :: after))
    (hc : isBlank c = false) :
    ∃ more, found cs (i + 1) (front.length + 1) = "'" ++ String.ofList (c :: more) ++ "'" := by
  have hpos : (0 : Int) < i + 1 := by omega
  have hindex : ((i + 1 : Int) - 1).toNat = i := by omega
  have hcolumn : ((front.length + 1 : Int) - 1).toNat = front.length := by omega
  have hlength : (front ++ c :: after).length = front.length + (after.length + 1) := by simp
  have hinside : ((front.length : Int) + 1) ≤ ((front ++ c :: after).length : Int) := by omega
  -- at most eleven characters are shown, and at least this one
  obtain ⟨k, hstop⟩ : ∃ k, stretchEnd (front ++ c :: after).length
      (min ((front ++ c :: after).length : Int) ((front.length : Int) + 1 + 10)) =
        front.length + (k + 1) := by
    refine ⟨min after.length 10, ?_⟩
    rw [stretchEnd, if_neg (by omega), hlength]
    omega
  obtain ⟨more, hmore⟩ := exists_trim_cons hc (after.take k)
  have hshown : ((front ++ c :: after).take (front.length + (k + 1))).drop front.length =
      c :: after.take k := by
    rw [List.take_length_add_append, List.drop_left, List.take_succ_cons]
  refine ⟨more, ?_⟩
  rw [found, if_pos hpos, hindex, hline]
  dsimp only
  rw [if_pos hinside, hstop, hcolumn, hshown, hmore]

/-- In a line of the text something is found, or the line has ended. -/
theorem found_ne_endOfInput (h : i < (lines cs).length) (column : Int) :
    found cs (i + 1) column ≠ "end of input" := by
  have hpos : (0 : Int) < i + 1 := by omega
  have hindex : ((i + 1 : Int) - 1).toNat = i := by omega
  have hquote (shown : List Char) : "'" ++ String.ofList shown ++ "'" ≠ "end of input" := by
    intro heq
    have hhead := congrArg (·.toList.head?) heq
    simp at hhead
  rw [found, if_pos hpos, hindex, List.getElem?_eq_getElem h]
  dsimp only
  split
  · split
    · decide
    · exact hquote _
  · decide

end Diagnosis

/-! ### Tabs in front -/

namespace Text

/-- Where no tab stands in front of a place, the text is the same up to there with its tabs replaced. -/
theorem take_expandTabsFrom {cs : List Char} {n : Nat} (h : '\t' ∉ cs.take n) (column : Nat) :
    (expandTabsFrom column cs).take n = cs.take n := by
  induction cs generalizing n column with
  | nil => rfl
  | cons c cs ih =>
    cases n with
    | zero => rfl
    | succ n =>
      rw [List.take_succ_cons] at h
      obtain ⟨hc, hcs⟩ := List.ne_and_not_mem_of_not_mem_cons h
      obtain ⟨column', heq⟩ := Written.exists_expandTabsFrom_cons (Ne.symm hc) column
      rw [heq, List.take_succ_cons, List.take_succ_cons, ih hcs]

/-- A character that is no space stands in the text itself, if no tab stands in front of it. -/
theorem exists_eq_append_of_expandTabsFrom {cs front after : List Char} {c : Char} {column : Nat}
    (h : expandTabsFrom column cs = front ++ c :: after) (hc : c ≠ ' ')
    (htab : '\t' ∉ cs.take front.length) : ∃ after', cs = front ++ c :: after' := by
  induction cs generalizing front column with
  | nil => cases front <;> cases h
  | cons d cs ih =>
    cases front with
    | nil =>
      have hd : d ≠ '\t' := by
        rintro rfl
        obtain ⟨n, column', heq⟩ := Written.exists_expandTabsFrom_tab column
        rw [heq] at h
        exact hc (List.cons.inj h).1.symm
      obtain ⟨column', heq⟩ := Written.exists_expandTabsFrom_cons hd column
      rw [heq] at h
      exact ⟨cs, congrArg (· :: cs) (List.cons.inj h).1⟩
    | cons x front =>
      rw [List.length_cons, List.take_succ_cons] at htab
      obtain ⟨hd, hcs⟩ := List.ne_and_not_mem_of_not_mem_cons htab
      obtain ⟨column', heq⟩ := Written.exists_expandTabsFrom_cons (Ne.symm hd) column
      rw [heq] at h
      obtain ⟨rfl, hrest⟩ := List.cons.inj h
      obtain ⟨after', rfl⟩ := ih hrest hcs
      exact ⟨after', rfl⟩

end Text

/-! ### Reports -/

namespace ParseError

variable {cs : List Char} {filename : String} {m : Misreading} {n : Nat}

theorem located_ofMisreading (source : List Char) (h : n ≤ cs.length) :
    (ofMisreading source filename m (placeOf cs n)).Located cs n where
  le_length := h
  location := rfl
  line := by
    change (((cs.take n).count '\n' + 1 : Nat) : Int) = _
    omega
  column := by
    change ((((cs.take n).reverse.takeWhile (· ≠ '\n')).length + 1 : Nat) : Int) = _
    omega

/-- What stands at a place that belongs to the text as it was written is found there. -/
theorem quotes_ofMisreading {source front after : List Char} {c : Char} {place : Place}
    (hpos : 0 < place.line) (hcolumn : place.column = front.length + 1)
    (hline : (lines source)[place.line - 1]? = some (front ++ c :: after)) (hc : isBlank c = false) :
    (ofMisreading source filename m place).Quotes c := by
  obtain ⟨more, hmore⟩ := found_of_line hline hc
  refine ⟨more, congrArg some ?_⟩
  rw [← hmore, hcolumn]
  congr 1
  omega

end ParseError

/-- A text that cannot be read is reported with a place of the text with its tabs replaced. -/
theorem exists_ofMisreading {α : Type} {read : List Char → Except Reader.Rejection α}
    {source filename : String} {e : ParseError}
    (h : parseWith read source filename = .error (.parse e)) :
    ∃ m n, n ≤ (expandTabs source.toList).length ∧
      e = .ofMisreading source.toList filename m (placeOf (expandTabs source.toList) n) := by
  rw [parseWith] at h
  split at h
  next => cases h
  next rejection _ =>
    cases rejection with
    | misread m rest =>
      cases h
      exact ⟨m, _, Nat.sub_le _ _, rfl⟩
    | halted reason => cases reason <;> cases h

/-- A character that is no line feed stands in the line of its place. -/
theorem exists_line_of_getElem? {cs : List Char} {n : Nat} {c : Char} (h : cs[n]? = some c)
    (hc : c ≠ '\n') :
    ∃ front after, (placeOf cs n).column = front.length + 1 ∧
      (lines cs)[(placeOf cs n).line - 1]? = some (front ++ c :: after) := by
  obtain ⟨front, hcolumn, -, hline⟩ := exists_line_placeOf cs n
  obtain ⟨hn, rfl⟩ := List.getElem?_eq_some_iff.mp h
  rw [List.drop_eq_getElem_cons hn, List.takeWhile_cons_of_pos (by simpa using hc)] at hline
  exact ⟨front, _, hcolumn, hline⟩

theorem ne_of_isBlank_eq_false {c : Char} (h : isBlank c = false) : c ≠ '\n' ∧ c ≠ ' ' := by
  constructor <;> (rintro rfl; cases h)

/-- Where a report points. The place is one of the text with its tabs replaced: its location, its line and
its column are counted there. What is found is looked up in the text as it was written, at the same line
and column; it starts with the character at the place, if that is not blank, as long as no tab stands in
front of it in its line. And if no tab stands in front of it at all, the place is the same one in the text
as it was written. -/
theorem parseError_located {source filename : String} {e : ParseError}
    (h : parseProgram source filename = .error (.parse e) ∨
      parseExpression source filename = .error (.parse e)) :
    ∃ n, e.Located (expandTabs source.toList) n ∧
      (∀ c line, (expandTabs source.toList)[n]? = some c → isBlank c = false →
        (lines source.toList)[(e.line - 1).toNat]? = some line →
        '\t' ∉ line.take (e.column - 1).toNat → e.Quotes c) ∧
      ('\t' ∉ source.toList.take n →
        e.Located source.toList n ∧
          ∀ c, source.toList[n]? = some c → isBlank c = false → e.Quotes c) := by
  obtain ⟨m, n, hn, rfl⟩ := h.elim exists_ofMisreading exists_ofMisreading
  generalize hplace : placeOf (expandTabs source.toList) n = place
  have hpos : 0 < place.line := hplace ▸ Nat.succ_pos _
  refine ⟨n, hplace ▸ ParseError.located_ofMisreading _ hn, fun c line hc hblank hline htab => ?_,
    fun htab => ?_⟩
  · -- the line of the place is that of the text as it was written, with its tabs replaced
    obtain ⟨hfeed, hspace⟩ := ne_of_isBlank_eq_false hblank
    obtain ⟨front, after, hcolumn, hexpanded⟩ := exists_line_of_getElem? hc hfeed
    have hindex : ((place.line : Int) - 1).toNat = place.line - 1 := by omega
    have hfront : ((place.column : Int) - 1).toNat = front.length := by
      rw [hplace] at hcolumn
      omega
    have hwritten : (lines source.toList)[place.line - 1]? = some line := hindex ▸ hline
    rw [hplace, lines_expandTabs, List.getElem?_map, hwritten] at hexpanded
    obtain ⟨after', rfl⟩ :=
      exists_eq_append_of_expandTabsFrom (Option.some.inj hexpanded) hspace (hfront ▸ htab)
    exact ParseError.quotes_ofMisreading hpos (hplace ▸ hcolumn) hwritten hblank
  · -- the two texts are the same up to the place
    have htake : (expandTabs source.toList).take n = source.toList.take n := take_expandTabsFrom htab 0
    have hlength : n ≤ source.toList.length := by
      have hlengths := congrArg List.length htake
      rw [List.length_take, List.length_take] at hlengths
      omega
    have hsame : placeOf source.toList n = place := by
      rw [← hplace, placeOf, placeOf, htake]
    refine ⟨hsame ▸ ParseError.located_ofMisreading _ hlength, fun c hc hblank => ?_⟩
    obtain ⟨front, after, hcolumn, hline⟩ :=
      exists_line_of_getElem? hc (ne_of_isBlank_eq_false hblank).1
    rw [hsame] at hcolumn hline
    exact ParseError.quotes_ofMisreading hpos hcolumn hline hblank

/-- A tab is in the first line, and the fault is in the second one. -/
theorem parseError_located_below_tab :
    ∃ e, parseProgram "x;\t\n)" "" = .error (.parse e) ∧ e.location = 9 ∧ e.line = 2 ∧
      e.column = 1 ∧ e.Quotes ')' := by
  obtain ⟨e, he⟩ : ∃ e, parseProgram "x;\t\n)" "" = .error (.parse e) := ⟨_, rfl⟩
  obtain ⟨n, hlocated, hquotes, -⟩ := parseError_located (.inl he)
  cases he
  cases (Int.ofNat.inj hlocated.location : 9 = n)
  exact ⟨_, rfl, rfl, rfl, rfl, hquotes ')' [')'] rfl (by decide) rfl (by decide)⟩

/-- The tab in front of a parenthesis that opens nothing. The text has two characters, but the location is
eight, and in the ninth column of the line nothing is found. -/
theorem parseProgram_fault_behind_tab :
    ∃ e, parseProgram "\t)" "" = .error (.parse e) ∧ e.location = 8 ∧ e.line = 1 ∧ e.column = 9 ∧
      e.got = some "end of line" ∧ ∀ n, ¬e.Located "\t)".toList n := by
  refine ⟨_, rfl, rfl, rfl, rfl, rfl, fun n h => ?_⟩
  have hlocation : (8 : Int) = n := h.location
  have hlength : n ≤ 2 := h.le_length
  omega

end Kestrel
