import Kestrel.Text.Utf8

/-!
# Failures

Three kinds of thing can go wrong when a program runs, and they are kept apart.

* `OpenFault`, `ReadFault` — why a file could not be opened or read;
* `RuntimeError` — a failure of the program, which is reported to its user and which a template shows
  in place of a value;
* `Fault` — a failure of the host that carries the program: a limit was reached, or a file could not
  even be asked for.

`RuntimeError.message` words the failures of a program, `RuntimeError.kind` names their kinds.
-/

namespace Kestrel

/-- Why a file could not be opened. -/
inductive OpenFault where
  /-- there is nothing of that name -/
  | missing
  /-- a part of the path that should be a directory is none -/
  | notDirectory
  /-- the path leads to a directory -/
  | isDirectory
  /-- a name, or the whole path, is too long -/
  | nameTooLong
  /-- the host does not allow it -/
  | denied
  /-- any other reason, by its number and its wording -/
  | other (number : Nat) (text : String)
  deriving DecidableEq, Repr

namespace OpenFault

/-- The number of the fault. -/
def number : OpenFault → Nat
  | missing => 2
  | notDirectory => 20
  | isDirectory => 21
  | nameTooLong => 36
  | denied => 13
  | other number _ => number

/-- The wording of the fault. -/
def text : OpenFault → String
  | missing => "No such file or directory"
  | notDirectory => "Not a directory"
  | isDirectory => "Is a directory"
  | nameTooLong => "File name too long"
  | denied => "Permission denied"
  | other _ text => text

/-- The name of the fault's kind. -/
def kind : OpenFault → String
  | missing => "FileNotFoundError"
  | notDirectory => "NotADirectoryError"
  | isDirectory => "IsADirectoryError"
  | denied => "PermissionError"
  | nameTooLong | other _ _ => "OSError"

end OpenFault

/-- Why a file could not be read as a text. -/
inductive ReadFault where
  /-- it could not be opened -/
  | unopened (fault : OpenFault)
  /-- its bytes are no text -/
  | undecodable (malformed : Text.Utf8.Malformed)
  deriving DecidableEq, Repr

namespace ReadFault

/-- The wording of a fault met when the file at `path` was read. -/
def text (path : String) : ReadFault → String
  | unopened fault =>
    "[Errno " ++ toString fault.number ++ "] " ++ fault.text ++ ": " ++ Text.quote path
  | undecodable malformed => malformed.text

/-- The fault with all its parts, as it is listed below a report. -/
def detail : ReadFault → String
  | unopened fault =>
    fault.kind ++ "(" ++ toString fault.number ++ ", " ++ Text.quote fault.text ++ ")"
  | undecodable malformed =>
    "UnicodeDecodeError('utf-8', " ++ Text.quoteBytes malformed.bytes ++ ", "
      ++ toString malformed.start ++ ", " ++ toString malformed.stop ++ ", "
      ++ Text.quote malformed.reason.text ++ ")"

end ReadFault

/-- A failure of the program that runs. -/
inductive RuntimeError where
  /-- no scope binds the name -/
  | undefinedVariable (name : String)
  /-- the operation is not defined for operands of these kinds -/
  | typeMismatch (operation operands : String)
  /-- the divisor is zero -/
  | divisionByZero
  /-- a function was given the wrong number of arguments; the name is empty if it has none -/
  | arityMismatch (expected actual : Int) (name : String)
  /-- what was called is no function but a value of this kind, which is empty if it is not known -/
  | notAFunction (name kind : String)
  /-- a file could not be read -/
  | ioFailure (path : String) (fault : ReadFault)
  deriving DecidableEq, Repr

namespace RuntimeError

/-- The wording of a failed reading of a file, given the wording of its cause. -/
def ioFailureMessage (path cause : String) : String :=
  "Failed to read file: " ++ path ++ " (" ++ cause ++ ")"

/-- The wording of a failure. -/
def message : RuntimeError → String
  | undefinedVariable name => "Undefined variable: " ++ name
  | typeMismatch operation operands =>
    "Unsupported operands for " ++ operation ++ ": " ++ operands
  | divisionByZero => "Division by zero"
  | arityMismatch expected actual name =>
    (if name = "" then "Function" else "Function '" ++ name ++ "'") ++
      " expected " ++ toString expected ++ " arguments but got " ++ toString actual
  | notAFunction name kind =>
    "'" ++ name ++ "' is not a function" ++ if kind = "" then "" else " (found " ++ kind ++ ")"
  | ioFailure path fault => ioFailureMessage path (fault.text path)

/-- The name of a failure's kind. -/
def kind : RuntimeError → String
  | undefinedVariable _ => "UndefinedVariableError"
  | typeMismatch _ _ => "TypeMismatchError"
  | divisionByZero => "DivisionByZeroError"
  | arityMismatch _ _ _ => "ArityMismatchError"
  | notAFunction _ _ => "NotAFunctionError"
  | ioFailure _ _ => "IOFailureError"

/-- What caused the failure, if that is another fault. -/
def cause : RuntimeError → Option ReadFault
  | ioFailure _ fault => some fault
  | _ => none

end RuntimeError

/-- A failure of the host. -/
inductive Fault where
  /-- a numeral would have too many digits -/
  | tooManyDigits
  /-- a text was to be repeated more often than the host can count -/
  | repeatOverflow
  /-- a path holds the character that ends texts on the host -/
  | nulInPath
  /-- the stack has no more room -/
  | stackFull
  /-- the bound on the steps of reading a program was reached; no text reaches it -/
  | readingBound
  /-- a script could not be opened -/
  | unopened (fault : OpenFault)
  /-- the host has not yet been asked for the file at this path -/
  | notSupplied (path : String)
  deriving DecidableEq, Repr

/-- The wording of a failure of the host. -/
def Fault.text : Fault → String
  | tooManyDigits => "a numeral would have too many digits"
  | repeatOverflow => "a text cannot be repeated so often"
  | nulInPath => "a path holds a null character"
  | stackFull => "the stack has no more room"
  | readingBound => "the program is nested too deeply"
  | unopened fault => fault.text
  | notSupplied path => "not supplied: " ++ path

/-- What ends an evaluation without a value. -/
inductive Failure where
  /-- a failure of the program -/
  | runtime (error : RuntimeError)
  /-- a failure of the host -/
  | fault (fault : Fault)
  deriving DecidableEq, Repr

end Kestrel
