import Kestrel.Text.Blank

/-!
# Hints

Guesses at what was meant, from what a text has where something else is expected.

* `Hint`, `Hint.text` — the hints and their wording;
* `hints` — the hints that fit;
* `expectedIn` — what a message says is expected.
-/

namespace Kestrel.Diagnosis

open Text

/-- A guess at what is wrong. -/
inductive Hint where
  /-- a brace is not closed -/
  | brace
  /-- a parenthesis is not closed -/
  | paren
  /-- a loop without its range -/
  | loop
  /-- a function without braces around its body -/
  | functionBody
  /-- an assignment where a comparison is meant -/
  | comparison
  deriving DecidableEq, Repr

/-- The wording of a hint. -/
def Hint.text : Hint → String
  | brace => "Check that every '\x7b' has a matching '\x7d'"
  | paren => "Check that every '(' has a matching ')'"
  | loop => "Loops are written as: for (i in start..end) \x7b ... \x7d"
  | functionBody => "Function bodies must be wrapped in braces: function f(x) \x7b ... \x7d"
  | comparison => "Use '==' to compare values; '=' only assigns"

/-- Does `part` occur in the text? -/
def occursIn (part : List Char) : List Char → Bool
  | [] => part.isEmpty
  | c :: cs => part.isPrefixOf (c :: cs) || occursIn part cs

/-- The hints for a place where `got` was found, `expected` was wanted, and the line reads `line`. -/
def hints (got : List Char) (expected : List String) (line : List Char) : List Hint :=
  let wanted := (" ".intercalate expected).toList
  let start := trimStart line
  (if occursIn "'\x7d'".toList wanted || got = "end of input".toList then [.brace] else []) ++
  (if occursIn "')'".toList wanted then [.paren] else []) ++
  (if !occursIn "..".toList line && "for".toList.isPrefixOf start then [.loop] else []) ++
  (if "function".toList.isPrefixOf start && !occursIn "\x7b".toList line then [.functionBody]
    else []) ++
  (if "'=".toList.isPrefixOf got && !occursIn "==".toList got then [.comparison] else [])

/-! ### What a message expects -/

/-- What is expected when a message does not say. -/
def anySyntax : String := "valid syntax"

/-- Does the description of what is expected end before this text? It ends at the end of the message, a
last line feed left aside, at a parenthesis after blanks, and at a comma and the word `found` with
blanks between them. -/
def endsDescription (cs : List Char) : Bool :=
  match cs with
  | [] | ['\n'] => true
  | ',' :: c :: r => isBlank c && "found".toList.isPrefixOf (trimStart r)
  | c :: r => isBlank c && "(".toList.isPrefixOf (trimStart r)

/-- The description that starts with the first character: the shortest one that ends properly within
its line. -/
def description : List Char → Option (List Char)
  | [] => none
  | c :: cs =>
    if c = '\n' then none
    else if endsDescription cs then some [c]
    else (description cs).map (c :: ·)

/-- The description after some blanks, as many of them as possible being passed over. -/
def descriptionAfterBlanks : List Char → Option (List Char)
  | [] => none
  | c :: cs =>
    if isBlank c then
      match descriptionAfterBlanks cs with
      | some d => some d
      | none => description cs
    else none

/-- What a message says is expected: the description after the first `Expected` that has one. -/
def described : List Char → Option (List Char)
  | [] => none
  | c :: cs =>
    if "Expected".toList.isPrefixOf (c :: cs) then
      match descriptionAfterBlanks (cs.drop 7) with
      | some d => some d
      | none => described cs
    else described cs

/-- What is expected according to a message. -/
def expectedIn (message : List Char) : List String :=
  match described message with
  | some d => [String.ofList d]
  | none => [anySyntax]

end Kestrel.Diagnosis
