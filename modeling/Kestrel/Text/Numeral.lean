/-!
# Numerals of bounded length

Integers have any size, but their decimal texts do not: a numeral has at most `digitLimit` digits.
Reading a longer one, or writing an integer that would need one, is refused.

* `numeral` — the decimal text of an integer, of any length;
* `numeral?` — the same within the limit;
* `ofDigits`, `ofDigits?` — the number that a sequence of digit values denotes, without and within the
  limit. Leading zeros count as digits.
-/

namespace Kestrel.Text

/-- The most digits that a numeral may have. -/
def digitLimit : Nat := 4300

/-- The decimal text of an integer: its digits, after a minus sign if it is negative. -/
def numeral (n : Int) : String :=
  if n < 0 then "-" ++ Nat.repr n.natAbs else Nat.repr n.natAbs

/-- The decimal text of an integer of at most `digitLimit` digits; the sign is not counted. -/
def numeral? (n : Int) : Option String :=
  if n.natAbs < Nat.pow 10 digitLimit then some (numeral n) else none

/-- The number with the given decimal digits, the most significant one first. -/
def ofDigits (ds : List Nat) : Nat :=
  ds.foldl (fun n d => 10 * n + d) 0

/-- The number with the given decimal digits, if there are at most `digitLimit`. -/
def ofDigits? (ds : List Nat) : Option Nat :=
  if ds.length ≤ digitLimit then some (ofDigits ds) else none

end Kestrel.Text
