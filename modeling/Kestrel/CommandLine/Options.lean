import Kestrel.Text.DecimalDigit
import Kestrel.Text.Quoted

/-!
# Options

The arguments of the program: five options, each with a short or a long name or both, and at most one
script. A long name may be cut short as long as it is clear which one is meant; short names may
follow one dash in a row. After two dashes everything is a script name.

* `Flag`, `Options` — the options, and what they amount to;
* `classify` — what one argument is;
* `Request`, `readArguments` — what the arguments as a whole ask for.

Arguments are acted on from the left, so help is given even where a later argument is wrong.
-/

namespace Kestrel.CommandLine

open Text

/-- An option. -/
inductive Flag where
  | help
  | interactive
  | parse
  | debug
  | version
  deriving DecidableEq, Repr

/-- The names of the options, in the order in which they are listed. -/
def optionNames : List (String × Flag) :=
  [("-h", .help), ("--help", .help), ("-i", .interactive), ("--interactive", .interactive),
   ("--parse", .parse), ("--debug", .debug), ("--version", .version)]

/-- All names of an option, as a complaint gives them. -/
def Flag.names (f : Flag) : String :=
  "/".intercalate ((optionNames.filter (·.2 = f)).map (·.1))

/-- What one argument is. -/
inductive Argument where
  /-- an option by this name, and what is attached to it, if anything is -/
  | option (name : String) (flag : Flag) (attached : Option String)
  /-- an option that there is not -/
  | unknown
  /-- no option -/
  | plain
  deriving DecidableEq, Repr

/-- A complaint about the arguments. -/
abbrev Complaint := String

/-- Splits a text at its first equals sign. -/
def splitEquals (cs : List Char) : List Char × Option (List Char) :=
  (cs.takeWhile (· ≠ '='), (cs.dropWhile (· ≠ '=')).tail?)

/-- Is it a negative number, digits with at most one point among them or in front? A line feed may
end it. -/
def isNegativeNumber (cs : List Char) : Bool :=
  match cs with
  | '-' :: r =>
    let r := if r.getLast? = some '\n' then r.dropLast else r
    let fraction := r.dropWhile isDecimalDigit
    match fraction with
    | [] => !r.isEmpty
    | '.' :: ds => !ds.isEmpty && ds.all isDecimalDigit
    | _ => false
  | _ => false

/-- The options that an argument may mean when it is none of their names: a long name cut short, or
short names in a row. -/
def candidates (arg : List Char) : List (String × Flag × Option String) :=
  match arg with
  | '-' :: '-' :: _ =>
    let (name, attached) := splitEquals arg
    (optionNames.filter fun o => name.isPrefixOf o.1.toList).map fun o =>
      (o.1, o.2, attached.map String.ofList)
  | '-' :: c :: r =>
    (optionNames.filter fun o => o.1.toList = ['-', c]).map fun o => (o.1, o.2, some (String.ofList r))
  | _ => []

/-- What one argument is, where two dashes have not been seen. -/
def classify (arg : String) : Except Complaint Argument :=
  let cs := arg.toList
  if cs.head? ≠ some '-' ∨ cs.length = 1 then .ok .plain
  else
    match optionNames.lookup arg with
    | some flag => .ok (.option arg flag none)
    | none =>
      let (name, attached) := splitEquals cs
      match attached, optionNames.lookup (String.ofList name) with
      | some attached, some flag =>
        .ok (.option (String.ofList name) flag (some (String.ofList attached)))
      | _, _ =>
        match candidates cs with
        | [(name, flag, attached)] => .ok (.option name flag attached)
        | [] => .ok (if isNegativeNumber cs || cs.contains ' ' then .plain else .unknown)
        | several =>
          .error ("ambiguous option: " ++ arg ++ " could match "
            ++ ", ".intercalate (several.map (·.1)))

/-- What two dashes are written for: everything after them is plain. -/
def endOfOptions : String := "--"

/-- What all arguments are. The first two dashes, and everything after them, are plain. -/
def classifyAll : List String → Except Complaint (List (String × Argument))
  | [] => .ok []
  | arg :: args =>
    if arg = endOfOptions then .ok ((arg :: args).map fun a => (a, .plain))
    else
      match classify arg with
      | .error e => .error e
      | .ok a => (classifyAll args).map ((arg, a) :: ·)

/-- The complaint about something attached to an option that takes nothing. -/
def ignoredArgument (flag : Flag) (attached : List Char) : Complaint :=
  "argument " ++ flag.names ++ ": ignored explicit argument " ++ quote (String.ofList attached)

/-- The options that a short name and the letters after it amount to: each letter is a short name too,
without its dash. -/
def flagsInRow (flag : Flag) : List Char → Except Complaint (List Flag)
  | [] => .ok [flag]
  | c :: cs =>
    match optionNames.lookup (String.ofList ['-', c]) with
    | none => .error (ignoredArgument flag (c :: cs))
    | some next => (flagsInRow next cs).map (flag :: ·)

/-- The options that one argument amounts to. What is attached to a short name has to be a row of short
names, and nothing may be attached to a long one. -/
def flagsOf (name : String) (flag : Flag) (attached : Option String) : Except Complaint (List Flag) :=
  match attached.map String.toList with
  | none => .ok [flag]
  | some [] => .error (ignoredArgument flag [])
  | some (c :: cs) =>
    if "--".toList.isPrefixOf name.toList then .error (ignoredArgument flag (c :: cs))
    else flagsInRow flag (c :: cs)

/-- What the options amount to. -/
structure Options where
  /-- asks for a dialogue -/
  interactive : Bool := false
  /-- asks for the outline of the script -/
  parse : Bool := false
  /-- asks for a trace -/
  debug : Bool := false
  /-- the script -/
  script : Option String := none
  deriving DecidableEq, Repr

/-- What the arguments ask for. -/
inductive Request where
  /-- an explanation of the arguments -/
  | help
  /-- the name of this version -/
  | version
  /-- nothing that makes sense -/
  | wrong (complaint : Complaint)
  /-- to do something -/
  | act (options : Options)
  deriving DecidableEq, Repr

/-- Whether a script can still be named. -/
inductive Slot where
  /-- none has been named -/
  | free
  /-- one has been named by the argument before this one -/
  | filling
  /-- one has been named before -/
  | filled
  deriving DecidableEq, Repr

/-- Acts on options from the left; help and version end it. -/
def setFlags : List Flag → Options → Request ⊕ Options
  | [], o => .inr o
  | .help :: _, _ => .inl .help
  | .version :: _, _ => .inl .version
  | .interactive :: fs, o => setFlags fs { o with interactive := true }
  | .parse :: fs, o => setFlags fs { o with parse := true }
  | .debug :: fs, o => setFlags fs { o with debug := true }

/-- Acts on arguments from the left. `extra` holds those that nothing can be done with, `ended` tells
whether the two dashes have been passed. -/
def act (slot : Slot) (ended : Bool) (extra : List String) (o : Options) :
    List (String × Argument) → Request
  | [] =>
    if extra.isEmpty then .act o
    else .wrong ("unrecognized arguments: " ++ " ".intercalate extra)
  | (arg, .unknown) :: args =>
    act (if slot = .free then .free else .filled) ended (extra ++ [arg]) o args
  | (_, .option name flag attached) :: args =>
    match flagsOf name flag attached with
    | .error e => .wrong e
    | .ok flags =>
      match setFlags flags o with
      | .inl request => request
      | .inr o => act (if slot = .free then .free else .filled) ended extra o args
  | (arg, .plain) :: args =>
    if arg = endOfOptions ∧ ended = false then
      match slot with
      | .free => act .free true extra o args
      | .filling => act .filled true extra o args
      | .filled => act .filled true (extra ++ [arg]) o args
    else
      match slot with
      | .free => act .filling ended extra { o with script := some arg } args
      | _ => act .filled ended (extra ++ [arg]) o args

/-- What the arguments ask for. -/
def readArguments (args : List String) : Request :=
  match classifyAll args with
  | .error e => .wrong e
  | .ok classified => act .free false [] {} classified

/-- Short options in a row, a long one cut short, and two dashes. -/
example : readArguments ["-ii", "--par", "--", "-x"] =
    .act { interactive := true, parse := true, script := some "-x" } := by cbv

end Kestrel.CommandLine
