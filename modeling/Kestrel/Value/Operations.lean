import Kestrel.Failure
import Kestrel.Text.Pieces
import Kestrel.Value.Basic

/-!
# Operations on values

What the operators and the built-in functions do to values that have been evaluated already.

* `Value.textOf`, `Value.expectInt` and its kin — a value as a text, or as what an operation asks for;
* `BinaryOp.apply`, `UnaryOp.apply` — the operators;
* `Value.split` — a text cut into a list of texts.

An operation fails with `RuntimeError.typeMismatch` exactly when it is not defined for the kinds of its
operands, and the failure names the kinds.
-/

namespace Kestrel

namespace Value

/-- The kinds of some values, separated by commas. -/
def describe (vs : List Value) : String :=
  ", ".intercalate (vs.map kind)

/-- The failure of an operation that is not defined for these operands. -/
def mismatch (operation : String) (operands : List Value) : Failure :=
  .runtime (.typeMismatch operation (describe operands))

/-- The text of a value, for an operation that needs one. -/
def textOf (v : Value) : Except Failure String :=
  match v.text? with
  | some t => .ok t
  | Option.none => .error (.fault .tooManyDigits)

/-- The integer that an operation asks for. -/
def expectInt (operation : String) : Value → Except Failure Int
  | int n => .ok n
  | v => .error (mismatch operation [v])

/-- The truth value that an operation asks for. -/
def expectBool (operation : String) : Value → Except Failure Bool
  | bool b => .ok b
  | v => .error (mismatch operation [v])

/-- The text that an operation asks for. -/
def expectStr (operation : String) : Value → Except Failure String
  | str s => .ok s
  | v => .error (mismatch operation [v])

/-- The texts of two values, joined. -/
def joinTexts (x y : Value) : Except Failure Value :=
  match textOf x, textOf y with
  | .ok s, .ok t => .ok (str (s ++ t))
  | .error e, _ => .error e
  | _, .error e => .error e

/-- The greatest count, of repetitions or of characters, that the host can hold. -/
def countLimit : Int := 0x7FFFFFFFFFFFFFFF

/-- A text repeated. A negative count repeats it zero times; a count that the host cannot hold is
refused, even for the empty text, and so is a result of too many characters. -/
def repeatText (s : String) (count : Int) : Except Failure Value :=
  if countLimit < count ∨ count < -countLimit - 1 ∨ countLimit < s.length * count then
    .error (.fault .repeatOverflow)
  else if s = "" then .ok (str "")
  else .ok (str (String.join (List.replicate count.toNat s)))

/-- The quotient rounded toward zero; nothing if the divisor is zero. -/
def divide? (m n : Int) : Option Int :=
  if n = 0 then Option.none else some (m.tdiv n)

/-- A text cut at a delimiter. -/
def split : Value → Value → Except Failure Value
  | str text, str delimiter =>
    .ok (list ((Text.pieces delimiter.toList text.toList).map fun piece => str (String.ofList piece)))
  | x, y => .error (mismatch "split" [x, y])

end Value

/-- The value of a binary operator. -/
def BinaryOp.apply (op : BinaryOp) (x y : Value) : Except Failure Value :=
  match op, x, y with
  | .add, .int m, .int n => .ok (.int (m + n))
  | .add, .str _, _ | .add, _, .str _ | .concat, _, _ => Value.joinTexts x y
  | .sub, .int m, .int n => .ok (.int (m - n))
  | .mul, .int m, .int n => .ok (.int (m * n))
  | .mul, .str s, .int n | .mul, .int n, .str s => Value.repeatText s n
  | .div, .int m, .int n =>
    match Value.divide? m n with
    | some q => .ok (.int q)
    | none => .error (.runtime .divisionByZero)
  | .greater, .int m, .int n => .ok (.bool (m > n))
  | .less, .int m, .int n => .ok (.bool (m < n))
  | .equal, .int m, .int n => .ok (.bool (m = n))
  | .atLeast, .int m, .int n => .ok (.bool (m ≥ n))
  | .and, .bool a, .bool b => .ok (.bool (a && b))
  | .or, .bool a, .bool b => .ok (.bool (a || b))
  | _, _, _ => .error (Value.mismatch op.symbol [x, y])

/-- The value of a unary operator. -/
def UnaryOp.apply : UnaryOp → Value → Except Failure Value
  | .neg, v => (Value.expectInt "unary -" v).map fun n => .int (-n)
  | .not, v => (Value.expectBool "!" v).map fun b => .bool !b

/-- The quotient goes toward zero, not down. -/
example : BinaryOp.apply .div (.int (-7)) (.int 2) = .ok (.int (-3)) := rfl

end Kestrel
