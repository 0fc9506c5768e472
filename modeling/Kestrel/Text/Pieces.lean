/-!
# Cutting a text into pieces

A text is cut at every occurrence of a delimiter, from the left and without overlap. The empty
delimiter occurs before, between and after all characters.

* `cutAt` — the pieces at a delimiter that is not empty;
* `pieces` — the pieces at any delimiter.
-/

namespace Kestrel.Text

/-- The pieces of a text at the occurrences of `delim`. The first `skip` characters belong to an
occurrence already found and are passed over; `done` holds the characters of the current piece that
have been read, the last one first. -/
def cutAt (delim : List Char) : (skip : Nat) → (done : List Char) → List Char → List (List Char)
  | _, done, [] => [done.reverse]
  | skip + 1, done, _ :: cs => cutAt delim skip done cs
  | 0, done, c :: cs =>
    if delim.isPrefixOf (c :: cs) then done.reverse :: cutAt delim (delim.length - 1) [] cs
    else cutAt delim 0 (c :: done) cs

/-- The pieces of a text at the occurrences of `delim`. With the empty delimiter they are an empty
piece, each character, and an empty piece. -/
def pieces (delim cs : List Char) : List (List Char) :=
  if delim = [] then [] :: cs.map ([·]) ++ [[]]
  else cutAt delim 0 [] cs

/-- Occurrences do not overlap. -/
example : pieces "aa".toList "aaaaa".toList = [[], [], ['a']] := by decide

end Kestrel.Text
