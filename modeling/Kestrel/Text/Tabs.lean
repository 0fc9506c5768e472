/-!
# Tab stops

A tab stands for as many spaces as lead to the next tab stop. The stops are eight columns apart, and
columns are counted from the last line feed or carriage return.

* `expandTabs` — a text with its tabs replaced by spaces.
-/

namespace Kestrel.Text

/-- The distance between two tab stops. -/
def tabWidth : Nat := 8

/-- Replaces tabs by spaces in a text that starts at column `column` of its line. -/
def expandTabsFrom (column : Nat) : List Char → List Char
  | [] => []
  | c :: cs =>
    if c = '\t' then
      List.replicate (tabWidth - column % tabWidth) ' ' ++
        expandTabsFrom (column + (tabWidth - column % tabWidth)) cs
    else if c = '\n' ∨ c = '\r' then c :: expandTabsFrom 0 cs
    else c :: expandTabsFrom (column + 1) cs

/-- Replaces the tabs of a whole text by spaces. -/
def expandTabs (cs : List Char) : List Char :=
  expandTabsFrom 0 cs

/-- No tab is left. -/
theorem tab_not_mem_expandTabsFrom (column : Nat) (cs : List Char) :
    '\t' ∉ expandTabsFrom column cs := by
  fun_induction expandTabsFrom column cs with
  | case1 => simp
  | case2 column cs ih => simp [ih]
  | case3 column c cs hc hn ih => simp [ih, Ne.symm hc]
  | case4 column c cs hc hn ih => simp [ih, Ne.symm hc]

/-- A text without tabs stays as it is. -/
theorem expandTabsFrom_eq_self {cs : List Char} (h : '\t' ∉ cs) (column : Nat) :
    expandTabsFrom column cs = cs := by
  fun_induction expandTabsFrom column cs <;> simp_all

end Kestrel.Text
