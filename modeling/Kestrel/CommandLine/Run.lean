import Kestrel.CommandLine.Console
import Kestrel.CommandLine.Options

/-!
# The command line

What the program does with its arguments, its files and the lines of its input, as a report of what it
writes and how it ends.

* `Report`, `Ending` — the two texts written, and the exit status or the failure of the host that
  nothing reports;
* `runScript`, `outlineScript` — a script run, and its outline;
* `Task`, `taskOf` — what the arguments amount to;
* `run` — everything.
-/

namespace Kestrel.CommandLine

/-- How the program ends. -/
inductive Ending where
  /-- with an exit status -/
  | exit (status : Nat)
  /-- by a failure of the host that nothing reports -/
  | broken (fault : Fault)
  deriving DecidableEq, Repr

/-- What the program writes, and how it ends. -/
structure Report where
  /-- the standard output -/
  stdout : String
  /-- the standard error output -/
  stderr : String
  /-- the end -/
  ending : Ending
  deriving DecidableEq, Repr

/-! ### Texts -/

/-- The form of the arguments. -/
def usage : String :=
  "usage: kestrel [-h] [-i] [--parse] [--debug] [--version] [script]\n"

/-- The explanation of the arguments. -/
def explanation : String :=
  usage
    ++ "\nKestrel Programming Language - tree-walking interpreter\n"
    ++ "\npositional arguments:\n"
    ++ "  script             Kestrel script file to execute\n"
    ++ "\noptions:\n"
    ++ "  -h, --help         show this help message and exit\n"
    ++ "  -i, --interactive  Start interactive mode\n"
    ++ "  --parse            Parse file and show the AST (for debugging)\n"
    ++ "  --debug            Enable debug output for all stages\n"
    ++ "  --version          show program's version number and exit\n"
    ++ "\nExamples:\n"
    ++ "  kestrel script.ks              # Run a Kestrel script\n"
    ++ "  kestrel -i                     # Interactive mode\n"
    ++ "  kestrel --parse script.ks      # Parse and show the AST\n"
    ++ "  kestrel --debug script.ks      # Run with evaluation trace on stderr\n"
    ++ "        \n"

/-- What is said about the language where nothing else was asked for. -/
def introduction : String :=
  "Kestrel Programming Language\n"
    ++ String.ofList (List.replicate 50 '=') ++ "\n"
    ++ "A small imperative scripting language with:\n"
    ++ "• Integers, strings, booleans and lists\n"
    ++ "• Functions with lexical closures\n"
    ++ "• Inclusive range loops and conditionals\n"
    ++ "• String interpolation with $\x7b...\x7d\n"
    ++ "\n"

/-- A rule across the page. -/
def pageRule : String := String.ofList (List.replicate 70 '=')

/-- The report of a failed script. With a trace it names the cause of the failure. -/
def failureReport (script : String) (debug : Bool) (e : RuntimeError) : String :=
  "\n" ++ pageRule ++ "\nRuntime Error in '" ++ script ++ "'\n" ++ pageRule ++ "\n\n"
    ++ e.kind ++ ": " ++ e.message ++ "\n"
    ++ (match debug, e.cause with
      | true, some fault => "\nCaused by: " ++ fault.detail ++ "\n"
      | _, _ => "")
    ++ "\n" ++ pageRule ++ "\n\n"

/-! ### Scripts -/

/-- Is a path without what does not count in it: empty parts, single dots and a slash at the end. -/
def plainPath (path : String) : String :=
  let parts := (Text.pieces ['/'] path.toList).filter fun p => p ≠ [] ∧ p ≠ ['.']
  let joined := ['/'].intercalate parts
  if path.toList.head? = some '/' then String.ofList ('/' :: joined)
  else if joined = [] then "." else String.ofList joined

/-- Is there something at a path? -/
def pathExists (files : Files) (path : String) : Except Fault Bool :=
  if path.toList.contains '\x00' then .ok false
  else
    match files (plainPath path) with
    | .bytes _ | .refused .isDirectory => .ok true
    | .refused .missing | .refused .notDirectory => .ok false
    | .refused fault => .error (.unopened fault)
    | .notYet => .error (.notSupplied (plainPath path))

/-- The lines that list the bindings after a script, up to one whose value has no text. -/
def bindingLines : Bindings → String × Option Fault
  | [] => ("", none)
  | (name, v) :: bs =>
    match v.text? with
    | some text =>
      let (rest, fault) := bindingLines bs
      ("  " ++ name ++ " = " ++ text ++ "\n" ++ rest, fault)
    | none => ("", some .tooManyDigits)

/-- The end of a script that has run without failure. With a trace its bindings are listed. -/
def scriptDone (s : Session) : Report :=
  if s.host.debug then
    let (listing, fault) := bindingLines s.bindings
    let header := "\nFinal environment (" ++ toString s.bindings.length ++ " bindings):\n"
    ⟨s.world.output, s.world.trace ++ header ++ listing,
      match fault with
      | some fault => .broken fault
      | none => .exit 0⟩
  else ⟨s.world.output, s.world.trace, .exit 0⟩

/-- How a problem is reported after a script. -/
def scriptReport (script : String) (debug : Bool) : Problem → Except Fault String :=
  reportWith (fun e => "Parse error in '" ++ script ++ "': " ++ e.text ++ "\n")
    (failureReport script debug)
    ("Runtime Error in '" ++ script ++ "': maximum recursion depth exceeded\n")

/-- Runs a script. -/
def runScript (host : Host) (script : String) : Report :=
  match (Session.fresh host).runFile script with
  | (.ok _, s) => scriptDone s
  | (.error problem, s) =>
    match scriptReport script host.debug problem with
    | .ok text => ⟨s.world.output, s.world.trace ++ text, .exit 1⟩
    | .error fault => ⟨s.world.output, s.world.trace, .broken fault⟩

/-- Shows the outline of a script. -/
def outlineScript (host : Host) (script : String) : Report :=
  match parseFile host script with
  | .error (.parse e) => ⟨"Parse error in '" ++ script ++ "': " ++ e.text ++ "\n", "", .exit 1⟩
  | .error (.failure (.fault fault)) => ⟨"", "", .broken fault⟩
  | .error (.failure (.runtime e)) => ⟨"", failureReport script host.debug e, .exit 1⟩
  | .ok statements =>
    let noted := ((Session.fresh host).perform (Session.noteParsed host script statements)).2
    let header := "Parsed " ++ toString statements.length ++ " top-level statements:\n"
      ++ String.ofList (List.replicate 50 '=') ++ "\n"
    if host.stack.outlines (.block statements) then
      match (Node.block statements).outlineText? 0 with
      | some outline => ⟨header ++ outline, noted.world.trace, .exit 0⟩
      | none => ⟨header, noted.world.trace, .broken .tooManyDigits⟩
    else ⟨header, noted.world.trace, .broken .stackFull⟩

/-! ### Everything -/

/-- A dialogue with the given lines, after an introduction. -/
def runDialogue (host : Host) (introduction : String) (lines : List String) : Report :=
  match Console.run lines (Console.tell (Session.fresh host) (introduction ++ greeting host.debug)) with
  | .next s | .left s => ⟨s.world.output, s.world.trace, .exit 0⟩
  | .broken fault s => ⟨s.world.output, s.world.trace, .broken fault⟩

/-- What is done with a script that was named. -/
def runNamed (host : Host) (o : Options) (script : String) : Report :=
  match pathExists host.files script with
  | .error fault => ⟨"", "", .broken fault⟩
  | .ok false => ⟨"", "Error: Script file '" ++ script ++ "' does not exist\n", .exit 1⟩
  | .ok true => if o.parse then outlineScript host script else runScript host script

/-- What the arguments amount to. -/
inductive Task where
  /-- only to report something -/
  | report (report : Report)
  /-- to hold a dialogue after an introduction -/
  | dialogue (debug : Bool) (introduction : String)
  /-- to do something with a script -/
  | script (options : Options) (path : String)
  deriving DecidableEq, Repr

/-- What is to be done with these arguments. A script comes before a dialogue, and without either there
is a dialogue with an introduction. -/
def taskOf (args : List String) : Task :=
  match readArguments args with
  | .help => .report ⟨explanation, "", .exit 0⟩
  | .version => .report ⟨versionName ++ "\n", "", .exit 0⟩
  | .wrong complaint => .report ⟨"", usage ++ "kestrel: error: " ++ complaint ++ "\n", .exit 2⟩
  | .act o =>
    match o.script with
    | none | some "" => .dialogue o.debug (if o.interactive then "" else introduction)
    | some path => .script o path

/-- The program: the stack it runs on, its arguments, the files it sees, and the lines of its input. -/
def run (stack : Stack) (args : List String) (files : Files) (lines : List String) : Report :=
  match taskOf args with
  | .report report => report
  | .dialogue debug introduction => runDialogue ⟨files, debug, stack⟩ introduction lines
  | .script o path => runNamed ⟨files, o.debug, stack⟩ o path

/-- The lines of an input; a line feed at its end begins no further line. -/
def inputLines (input : String) : List String :=
  let ls := Text.lines input.toList
  (if ls.getLast? = some [] then ls.dropLast else ls).map String.ofList

end Kestrel.CommandLine
