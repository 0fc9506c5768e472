import Kestrel.Proofs.Written.Precedence
import Kestrel.Proofs.Written.Token
import Kestrel.Syntax.Node

/-!
# Programs as text

A program is written with one space between tokens and a semicolon behind each simple statement.
Parentheses stand only where the operators around an operand would otherwise take it apart.

* `phrase`, `sentence`, `render` — an expression, a statement and a program as text;
* `IsExpression`, `IsStatement` — the trees that are programs. Assignments, declarations, loops,
  conditions and blocks are statements only, and every name and number is one that can be written.
-/

namespace Kestrel.Written

/-! ### Expressions -/

/-- The tier of an expression is that of its outermost operator. -/
def tierOf : Node → Nat
  | .choice _ _ _ => choiceTier
  | .binary op _ _ => tier op
  | .unary _ _ => unaryTier
  | _ => unaryTier + 1

/-- A character between quotes. -/
def escaped (c : Char) : List Char :=
  if c = '"' ∨ c = '\\' then ['\\', c]
  else if c = '\n' then ['\\', 'n']
  else if c = '\r' then ['\\', 'r']
  else if c = '\t' then ['\\', 't']
  else [c]

/-- The token of a text. -/
def textToken (s : String) : Token :=
  .string (s.toList.flatMap escaped)

/-- Tokens between parentheses. -/
def parenthesized (ts : List Token) : List Token :=
  .sign .openParen :: ts ++ [.sign .closeParen]

/-- The tokens `ts` of the expression `e` where an operand of at least the given tier is needed. -/
def within (least : Nat) (e : Node) (ts : List Token) : List Token :=
  if tierOf e < least then parenthesized ts else ts

mutual

/-- The tokens of an expression. -/
def phrase : Node → List Token
  | .int n => [.int (Nat.toDigits 10 n.natAbs)]
  | .str s | .template s => [textToken s]
  | .bool b => [.keyword (if b then .true else .false)]
  | .none => [.keyword .none]
  | .var x => [.name x]
  | .binary op l r =>
    within (tier op) l (phrase l) ++ .sign (.binary op) :: within (tier op + 1) r (phrase r)
  | .unary op e => .sign (unarySign op) :: within unaryTier e (phrase e)
  | .choice c t f =>
    within (choiceTier + 1) c (phrase c) ++
      .sign .question :: (phrase t ++ .sign .colon :: phrase f)
  | .call x args => .name x :: parenthesized (phrases args)
  | .print e => .keyword .print :: parenthesized (phrase e)
  | .read e => .keyword .readFile :: parenthesized (phrase e)
  | .split s d => .keyword .split :: parenthesized (phrase s ++ .sign .comma :: phrase d)
  | .assign _ _ | .ifElse _ _ _ | .forLoop _ _ _ _ | .block _ | .declare _ _ _ => []

/-- The tokens of expressions between commas. -/
def phrases : List Node → List Token
  | [] => []
  | e :: es => phrase e ++ morePhrases es

/-- The tokens of expressions with a comma in front of each. -/
def morePhrases : List Node → List Token
  | [] => []
  | e :: es => .sign .comma :: (phrase e ++ morePhrases es)

end

/-! ### Statements -/

/-- Tokens between braces. -/
def braced (ts : List Token) : List Token :=
  .sign .openBrace :: ts ++ [.sign .closeBrace]

/-- The tokens of names with a comma in front of each. -/
def moreNames (names : List String) : List Token :=
  names.flatMap fun x => [.sign .comma, .name x]

/-- The tokens of names between commas. -/
def nameTokens : List String → List Token
  | [] => []
  | x :: xs => .name x :: moreNames xs

/-- Is the node a condition? -/
def isCondition : Node → Bool
  | .ifElse _ _ _ => true
  | _ => false

mutual

/-- The tokens of a statement. -/
def sentence : Node → List Token
  | .assign x e => .name x :: .sign .assign :: (phrase e ++ [.sign .semicolon])
  | .block ns => braced (sentences ns)
  | .declare x params body =>
    .keyword .function :: .name x :: (parenthesized (nameTokens params) ++ sentence body)
  | .forLoop x first last body =>
    .keyword .for :: (parenthesized (.name x :: .keyword .in ::
      (phrase first ++ .sign .range :: phrase last)) ++ sentence body)
  | .ifElse c yes no =>
    .keyword .if :: (parenthesized (phrase c) ++ (sentence yes ++ elseSentence no))
  | e => phrase e ++ [.sign .semicolon]

/-- The tokens of the second branch of a condition. An empty block is left out, and a condition alone
in the block stands right behind the keyword. -/
def elseSentence : Node → List Token
  | .block ns => elseSentences ns
  | _ => []

/-- The tokens of the statements in the second branch of a condition. -/
def elseSentences : List Node → List Token
  | [] => []
  | n :: ns =>
    .keyword .else ::
      if ns.isEmpty && isCondition n then sentence n else braced (sentence n ++ sentences ns)

/-- The tokens of statements in a row. -/
def sentences : List Node → List Token
  | [] => []
  | n :: ns => sentence n ++ sentences ns

end

/-- A program as text. -/
def render (statements : List Node) : String :=
  String.ofList (write (sentences statements))

/-! ### The trees that are programs -/

/-- The tree is an expression. -/
inductive IsExpression : Node → Prop where
  | int {n : Nat} (h : (Nat.toDigits 10 n).length ≤ 4300) : IsExpression (.int n)
  | str {s : String} (h : ¬['$', '{'] <:+: s.toList) : IsExpression (.str s)
  | template {s : String} (h : ['$', '{'] <:+: s.toList) : IsExpression (.template s)
  | bool (b : Bool) : IsExpression (.bool b)
  | none : IsExpression .none
  | var {x : String} (hx : isName x.toList = true) : IsExpression (.var x)
  | binary (op : BinaryOp) {l r : Node} (hl : IsExpression l) (hr : IsExpression r) :
    IsExpression (.binary op l r)
  | unary (op : UnaryOp) {e : Node} (he : IsExpression e) : IsExpression (.unary op e)
  | choice {c t f : Node} (hc : IsExpression c) (ht : IsExpression t) (hf : IsExpression f) :
    IsExpression (.choice c t f)
  | call {x : String} {args : List Node} (hx : isName x.toList = true)
    (hargs : ∀ e ∈ args, IsExpression e) : IsExpression (.call x args)
  | print {e : Node} (he : IsExpression e) : IsExpression (.print e)
  | read {e : Node} (he : IsExpression e) : IsExpression (.read e)
  | split {s d : Node} (hs : IsExpression s) (hd : IsExpression d) : IsExpression (.split s d)

/-- The tree is a statement. -/
inductive IsStatement : Node → Prop where
  | expression {e : Node} (he : IsExpression e) : IsStatement e
  | assign {x : String} {e : Node} (hx : isName x.toList = true) (he : IsExpression e) :
    IsStatement (.assign x e)
  | block {ns : List Node} (hns : ∀ n ∈ ns, IsStatement n) : IsStatement (.block ns)
  | declare {x : String} {params : List String} {ns : List Node} (hx : isName x.toList = true)
    (hparams : ∀ p ∈ params, isName p.toList = true) (hns : ∀ n ∈ ns, IsStatement n) :
    IsStatement (.declare x params (.block ns))
  | forLoop {x : String} {first last : Node} {ns : List Node} (hx : isName x.toList = true)
    (hfirst : IsExpression first) (hlast : IsExpression last) (hns : ∀ n ∈ ns, IsStatement n) :
    IsStatement (.forLoop x first last (.block ns))
  | ifElse {c : Node} {yes no : List Node} (hc : IsExpression c) (hyes : ∀ n ∈ yes, IsStatement n)
    (hno : ∀ n ∈ no, IsStatement n) : IsStatement (.ifElse c (.block yes) (.block no))

end Kestrel.Written
