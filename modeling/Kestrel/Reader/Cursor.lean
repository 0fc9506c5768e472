/-!
# Positions in a text

Programs are read without cutting them into tokens first: whether a word is a keyword depends on the
character in front of it, even where that character ends another token. So a position in a text
remembers that character.

* `Cursor` — a position: the character before it and the text after it;
* `Cursor.skip` — the position after blanks and comments;
* `Cursor.afterComments` — the position after the last comment that only blanks and other comments
  precede, where a missing token is reported.

Blanks are the space, tab, line feed and carriage return only. A comment goes from two slashes to the
end of the line; a backslash at the end of the line continues it on the next one.
-/

namespace Kestrel.Reader

/-- A position in a text. -/
structure Cursor where
  /-- the character in front, unless the text starts here -/
  before : Option Char
  /-- the text from here on -/
  rest : List Char
  deriving DecidableEq, Repr, Inhabited

/-- Blanks between tokens. -/
def isGap (c : Char) : Bool :=
  c = ' ' || c = '\t' || c = '\n' || c = '\r'

/-- What the characters at a position belong to, between two tokens. -/
inductive Layout where
  /-- blanks -/
  | gap
  /-- a comment -/
  | comment
  /-- a comment, right after a backslash -/
  | escaped
  deriving DecidableEq, Repr

/-- Do two slashes start the text? -/
def startsComment : List Char → Bool
  | a :: b :: _ => a = '/' && b = '/'
  | _ => false

/-- How a comment goes on after the character `c`, which does not end it. -/
def commentAfter (c : Char) : Layout :=
  if c = '\\' then .escaped else .comment

/-- The first position that belongs neither to blanks nor to comments. -/
def skipFrom : Layout → (before : Option Char) → List Char → Cursor
  | _, before, [] => ⟨before, []⟩
  | .gap, before, c :: cs =>
    if isGap c then skipFrom .gap (some c) cs
    else if startsComment (c :: cs) then skipFrom .comment (some c) cs
    else ⟨before, c :: cs⟩
  | .comment, _, c :: cs =>
    if c = '\n' then skipFrom .gap (some c) cs else skipFrom (commentAfter c) (some c) cs
  | .escaped, _, c :: cs =>
    if c = '\n' then skipFrom .comment (some c) cs else skipFrom (commentAfter c) (some c) cs

/-- The position after the last comment, where `mark` is the text after the last comment so far. -/
def afterCommentsFrom : Layout → (mark : List Char) → List Char → List Char
  | .gap, mark, [] => mark
  | .comment, _, [] | .escaped, _, [] => []
  | .gap, mark, c :: cs =>
    if isGap c then afterCommentsFrom .gap mark cs
    else if startsComment (c :: cs) then afterCommentsFrom .comment mark cs
    else mark
  | .comment, mark, c :: cs =>
    if c = '\n' then afterCommentsFrom .gap (c :: cs) cs
    else afterCommentsFrom (commentAfter c) mark cs
  | .escaped, mark, c :: cs =>
    if c = '\n' then afterCommentsFrom .comment mark cs
    else afterCommentsFrom (commentAfter c) mark cs

namespace Cursor

/-- The start of a text. -/
def start (cs : List Char) : Cursor := ⟨none, cs⟩

/-- The position after blanks and comments. -/
def skip (c : Cursor) : Cursor :=
  skipFrom .gap c.before c.rest

/-- The text after the comments at a position; blanks that no comment follows are left. -/
def afterComments (c : Cursor) : List Char :=
  afterCommentsFrom .gap c.rest c.rest

/-- The position after the first `n` characters. -/
def advance (c : Cursor) (n : Nat) : Cursor :=
  ⟨(c.rest.take n).getLast?.or c.before, c.rest.drop n⟩

end Cursor

end Kestrel.Reader
