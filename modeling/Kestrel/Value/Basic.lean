import Kestrel.Syntax.Node
import Kestrel.Text.Numeral

/-!
# Values

What a program computes with: integers of any size, texts, truth values, `None`, lists, records and
functions. A function holds its parameters, its body and the scope in which it was declared, by the
number of that scope.

* `Value` — the values;
* `Value.kind` — the name of a value's kind, as failures give it;
* `Value.text?` — the text of a value, unless an integer in it is too long to be written;
* `Value.same` — equality of values as a user sees it: records are compared regardless of order, and
  no two functions are equal.
-/

namespace Kestrel

/-- Scopes are numbered in the order in which they are made. -/
abbrev ScopeId := Nat

/-- A value. -/
inductive Value where
  /-- an integer -/
  | int (value : Int)
  /-- a text -/
  | str (text : String)
  /-- `true` or `false` -/
  | bool (value : Bool)
  /-- the value of what has no other value -/
  | none
  /-- values in a row -/
  | list (elements : List Value)
  /-- values by name, in the order in which the names were given -/
  | record (entries : List (String × Value))
  /-- a function: its parameters, its body, the scope it was declared in, and its name -/
  | function (params : List String) (body : Node) (scope : ScopeId) (name : String)
  deriving Inhabited

namespace Value

/-- The name of a value's kind. -/
def kind : Value → String
  | int _ => "Int"
  | str _ => "Str"
  | bool _ => "Bool"
  | none => "None"
  | list _ => "List"
  | record _ => "Record"
  | function _ _ _ _ => "Function"

mutual

/-- The text of a value; nothing if an integer in it has too many digits. -/
def text? : Value → Option String
  | int n => Text.numeral? n
  | str s => some s
  | bool b => some (if b then "true" else "false")
  | none => some "None"
  | list vs => (texts? vs).map fun ts => "[" ++ ", ".intercalate ts ++ "]"
  | record es => (entryTexts? es).map fun ts => "\x7b" ++ ", ".intercalate ts ++ "\x7d"
  | function params _ _ _ => some ("Function(" ++ ", ".intercalate params ++ ")")

/-- The texts of several values. -/
def texts? : List Value → Option (List String)
  | [] => some []
  | v :: vs =>
    match text? v, texts? vs with
    | some t, some ts => some (t :: ts)
    | _, _ => Option.none

/-- The texts of a record's entries. -/
def entryTexts? : List (String × Value) → Option (List String)
  | [] => some []
  | (key, v) :: es =>
    match text? v, entryTexts? es with
    | some t, some ts => some ((key ++ ": " ++ t) :: ts)
    | _, _ => Option.none

end

mutual

/-- Are two values equal? Lists are compared element by element, records by the values of their
names, and functions are never equal. -/
def same : Value → Value → Bool
  | int m, int n => m = n
  | str s, str t => s = t
  | bool a, bool b => a = b
  | none, none => true
  | list vs, list ws => sameAll vs ws
  | record es, record fs => es.length = fs.length && sameEntries es fs
  | _, _ => false

/-- Are two lists of values equal, element by element? -/
def sameAll : List Value → List Value → Bool
  | [], [] => true
  | v :: vs, w :: ws => same v w && sameAll vs ws
  | _, _ => false

/-- Does each entry of the first list occur in the second? -/
def sameEntries : List (String × Value) → List (String × Value) → Bool
  | [], _ => true
  | (key, v) :: es, fs =>
    (match fs.lookup key with
    | some w => same v w
    | Option.none => false) && sameEntries es fs

end

end Value

end Kestrel
