import Kestrel.Reader.Token
import Kestrel.Syntax.Node

/-!
# Expressions

Operands with operators around them are read by a machine with a stack. The stack holds what still
waits for an operand on its right: operators with what stands to their left, parentheses, and the two
halves of a choice. An operator first completes everything on the stack that binds at least as tight
as itself, so operators of one level associate to the left, and choices to the right.

* `Pending`, `settle` — what waits on the stack, and how it is completed;
* `Chain.step`, `Chain.run` — one step of the machine, and all of them;
* `operand` — what the machine takes as an operand, given how to read an expression inside it;
* `chainAt`, `expressionAt` — what the machine makes of a text, and expressions as a rule.

After an operator the machine asks for an operand and does not go back: `1 +` is no expression, and
neither is anything that starts with it.
-/

namespace Kestrel.Reader

/-- What waits for the operand on its right. -/
inductive Pending where
  /-- an operator in front of the operand -/
  | unary (op : UnaryOp)
  /-- an operator between `left` and the operand -/
  | binary (op : BinaryOp) (left : Node)
  /-- a condition and its question mark -/
  | condition (condition : Node)
  /-- a condition, and what is chosen if it holds, up to the colon -/
  | otherwise (condition yes : Node)
  /-- an opening parenthesis -/
  | paren
  deriving Repr

/-- Completes with the operand `e` whatever waits on top of the stack and binds tighter than `level`.
Open parentheses and conditions without a colon are not passed. -/
def settle (level : Nat) : List Pending → Node → List Pending × Node
  | .unary op :: stack, e =>
    if level < UnaryOp.level then settle level stack (.unary op e) else (.unary op :: stack, e)
  | .binary op l :: stack, e =>
    if level < op.level then settle level stack (.binary op l e) else (.binary op l :: stack, e)
  | .otherwise c t :: stack, e =>
    if level < choiceLevel then settle level stack (.choice c t e) else (.otherwise c t :: stack, e)
  | stack, e => (stack, e)

namespace Chain

/-- The machine between two steps. -/
structure State where
  /-- what waits for an operand, the innermost first -/
  stack : List Pending
  /-- how many opening parentheses have no closing one yet -/
  unclosed : Nat
  /-- the operand that was read last; nothing where one is still to come -/
  current : Option Node
  /-- the position -/
  cursor : Cursor

/-- Why the machine stands still without an expression. -/
inductive Problem where
  /-- there is no operand where one must be -/
  | missingOperand
  /-- the expression ends inside parentheses or inside a choice -/
  | unbalanced
  deriving DecidableEq, Repr

/-- What a step leads to. -/
inductive Next where
  /-- another step -/
  | more (state : State)
  /-- an expression, and the position after it -/
  | done (e : Node) (rest : Cursor)
  /-- no expression; the problem is at the given text -/
  | failed (problem : Problem) (rest : List Char)
  /-- the end of the reading -/
  | halt (reason : Halt)

/-- A step that has to find an operand: an operator in front of it, the operand itself, or an opening
parenthesis. -/
def stepOperand (operand : Rule Node) (s : State) : Next :=
  match unaryOp s.cursor with
  | .ok op c => .more { s with stack := .unary op :: s.stack, cursor := c }
  | _ =>
    match operand s.cursor with
    | .ok e c => .more { s with current := some e, cursor := c }
    | .halt h => .halt h
    | .no =>
      match symbol "(" s.cursor with
      | .ok _ c =>
        .more { s with stack := .paren :: s.stack, unclosed := s.unclosed + 1, cursor := c }
      | _ => .failed .missingOperand s.cursor.afterComments

/-- The end of an expression whose last operand is `e`. -/
def finish (s : State) (e : Node) : Next :=
  match settle 0 s.stack e with
  | ([], e) => .done e s.cursor
  | _ => .failed .unbalanced s.cursor.afterComments

/-- A closing parenthesis after the operand `e`. It takes the opening one off the stack if that is on
top once everything else is completed. -/
def close (s : State) (e : Node) (c : Cursor) : State :=
  match settle 0 s.stack e with
  | (.paren :: stack, e) => ⟨stack, s.unclosed - 1, some e, c⟩
  | (stack, e) => ⟨stack, s.unclosed - 1, some e, c⟩

/-- A step after the operand `e`: a closing parenthesis, a colon, an operator, a question mark, or the
end. -/
def stepOperator (s : State) (e : Node) : Next :=
  match (if s.unclosed = 0 then .no else symbol ")" s.cursor) with
  | .ok _ c => .more (close s e c)
  | _ =>
    match symbol ":" s.cursor, settle 0 s.stack e with
    | .ok _ c, (.condition cond :: stack, e) =>
      .more ⟨.otherwise cond e :: stack, s.unclosed, none, c⟩
    | _, _ =>
      match binaryOp s.cursor with
      | .ok op c =>
        let (stack, e) := settle (op.level - 1) s.stack e
        .more ⟨.binary op e :: stack, s.unclosed, none, c⟩
      | _ =>
        match symbol "?" s.cursor with
        | .ok _ c =>
          let (stack, e) := settle choiceLevel s.stack e
          .more ⟨.condition e :: stack, s.unclosed, none, c⟩
        | _ => finish s e

/-- One step. -/
def step (operand : Rule Node) (s : State) : Next :=
  match s.current with
  | none => stepOperand operand s
  | some e => stepOperator s e

/-- At most `bound` steps. -/
def run (operand : Rule Node) : (bound : Nat) → State → Next
  | 0, _ => .halt .exhausted
  | bound + 1, s =>
    match step operand s with
    | .more s => run operand bound s
    | next => next

/-- The machine at the start of an expression. -/
def start (c : Cursor) : State := ⟨[], 0, none, c⟩

end Chain

/-! ### Operands -/

/-- Elements after the first one of a list, each behind a comma. A comma that no element follows is
left. -/
def commaTail {α : Type} (element : Rule α) (bound : Nat) : Rule (List α) :=
  Rule.many (do symbol ","; element) bound

/-- Elements between commas, or nothing. -/
def commaList {α : Type} (element : Rule α) (bound : Nat) : Rule (List α) :=
  Rule.orElse (do
    let a ← element
    let as ← commaTail element bound
    pure (a :: as)) (pure [])

/-- Does a dollar sign with an opening brace occur in the text? -/
def hasPlaceholder : List Char → Bool
  | [] => false
  | c :: cs => (c = '$' && cs.head? = some '{') || hasPlaceholder cs

/-- A text as a node: with placeholders it is a template. -/
def stringNode (cs : List Char) : Node :=
  if hasPlaceholder cs then .template (String.ofList cs) else .str (String.ofList cs)

/-- The kinds of operand in the order in which they are tried: literals, built-in functions with their
arguments, calls and names. -/
def operandForms (expression : Rule Node) (bound : Nat) : List (Rule Node) := [
  do let n ← integer; pure (.int n),
  do let s ← string; pure (stringNode s),
  do keyword .true; pure (.bool true),
  do keyword .false; pure (.bool false),
  do keyword .none; pure .none,
  do keyword .print; symbol "("; let e ← expression; symbol ")"; pure (.print e),
  do keyword .readFile; symbol "("; let e ← expression; symbol ")"; pure (.read e),
  do
    keyword .split; symbol "("; let s ← expression; symbol ","; let d ← expression; symbol ")"
    pure (.split s d),
  do
    let name ← identifier
    symbol "("
    let args ← commaList expression bound
    symbol ")"
    pure (.call name args),
  do let name ← identifier; pure (.var name)]

/-- What stands without operators. Parentheses are left to the machine. -/
def operand (expression : Rule Node) (bound : Nat) : Rule Node :=
  Rule.oneOf (operandForms expression bound)

/-! ### Expressions -/

/-- The outcome of the machine as the outcome of a rule. -/
def Chain.Next.toParsed : Chain.Next → Parsed Node
  | .done e c => .ok e c
  | .halt h => .halt h
  | .more _ | .failed _ _ => .no

/-- What the machine makes of the text at a position, if arguments are nested less than `bound` deep. -/
def chainAt : (bound : Nat) → Cursor → Chain.Next
  | 0, _ => .halt .exhausted
  | bound + 1, c =>
    Chain.run (operand (fun c => (chainAt bound c).toParsed) bound) (bound + 1) (Chain.start c)

/-- An expression whose arguments are nested less than `bound` deep. -/
def expressionAt (bound : Nat) : Rule Node := fun c =>
  (chainAt bound c).toParsed

theorem chainAt_succ (bound : Nat) (c : Cursor) :
    chainAt (bound + 1) c =
      Chain.run (operand (expressionAt bound) bound) (bound + 1) (Chain.start c) := rfl

end Kestrel.Reader
