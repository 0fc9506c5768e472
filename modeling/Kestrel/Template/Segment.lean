/-!
# The segments of a template

A template is a text with placeholders: a dollar sign, an opening brace, at least one character other
than a closing brace, and a closing brace. Placeholders are found from the left and do not overlap;
whatever belongs to none stands for itself.

* `Segment` — a stretch of text, or the inside of a placeholder;
* `placeholder?` — the placeholder at the start of a text;
* `segments` — the segments of a template.
-/

namespace Kestrel.Template

/-- A part of a template. -/
inductive Segment where
  /-- characters that stand for themselves -/
  | text (chars : List Char)
  /-- the inside of a placeholder -/
  | placeholder (inner : List Char)
  deriving DecidableEq, Repr

/-- Belongs to the inside of a placeholder. -/
def isInner (c : Char) : Bool := c ≠ '}'

/-- The inside of the placeholder with which a text starts. -/
def placeholder? : List Char → Option (List Char)
  | '$' :: '{' :: cs =>
    if cs.takeWhile isInner ≠ [] ∧ cs.dropWhile isInner ≠ [] then some (cs.takeWhile isInner)
    else none
  | _ => none

/-- A stretch of text as a segment, unless it is empty. `done` holds its characters, the last one
first. -/
def textSegment (done : List Char) : List Segment :=
  if done.isEmpty then [] else [.text done.reverse]

/-- The segments of a template. The first `skip` characters belong to a placeholder already found;
`done` holds the characters since the last placeholder, the last one first. -/
def segmentsFrom : (skip : Nat) → (done : List Char) → List Char → List Segment
  | _, done, [] => textSegment done
  | skip + 1, done, _ :: cs => segmentsFrom skip done cs
  | 0, done, c :: cs =>
    match placeholder? (c :: cs) with
    | some inner => textSegment done ++ .placeholder inner :: segmentsFrom (inner.length + 2) [] cs
    | none => segmentsFrom 0 (c :: done) cs

/-- The segments of a template. -/
def segments (cs : List Char) : List Segment :=
  segmentsFrom 0 [] cs

/-- An empty placeholder is text, and the inside may hold an opening brace. -/
example : segments "a$\x7b\x7d$\x7b$\x7bx\x7d".toList =
    [.text "a$\x7b\x7d".toList, .placeholder "$\x7bx".toList] := by decide +kernel

end Kestrel.Template
