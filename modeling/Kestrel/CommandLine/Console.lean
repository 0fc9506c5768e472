import Kestrel.Session
import Kestrel.Syntax.Outline

/-!
# The dialogue

A dialogue reads one line at a time. A line is a command or a program; values other than `None` are
shown, failures are reported, and the dialogue goes on with what the lines before have bound.

* `Console` — a dialogue: the session, whose output is all that is shown;
* `Console.line` — what one line does;
* `Console.run` — a whole dialogue, with the prompts;
* `completions` — the words that complete the beginning of a word.
-/

namespace Kestrel.CommandLine

/-- The name of this version. -/
def versionName : String := "Kestrel v0.3.0"

/-- What a dialogue starts with. -/
def greeting (debug : Bool) : String :=
  versionName ++ " - Interactive Mode\n"
    ++ "Type 'exit' to quit, ':help' for commands\n"
    ++ "Readline enabled: Use ↑/↓ for history, Tab for completion\n"
    ++ (if debug then "Debug mode enabled\n" else "")
    ++ "\n"

/-- What stands in front of each line. -/
def prompt : String := "kestrel> "

/-- What a dialogue ends with when its input does. -/
def farewell : String := "\nGoodbye!\n"

/-- The answer to `:help`. -/
def helpText : String :=
  "REPL Commands:\n"
    ++ "  :parse <expr>     - Show parsed AST\n"
    ++ "  :env              - Show current environment\n"
    ++ "  :reset            - Clear all bindings\n"
    ++ "  :help             - Show this help\n"
    ++ "  exit              - Exit REPL\n"
    ++ "\n"
    ++ "Language features:\n"
    ++ "  let x = 5;                     - Variable binding\n"
    ++ "  function add(a, b) \x7b a + b \x7d   - Function definition\n"
    ++ "  add(1, 2)                      - Function call\n"
    ++ "  for (i in 1..3) \x7b print(i); \x7d  - Inclusive range loop\n"
    ++ "  \"$\x7bx\x7d items\"                   - String interpolation\n"

/-- The words that can be completed. -/
def completable : List String :=
  ["let", "function", "for", "in", "if", "else", "true", "false", "None", "print", "readFile", "split",
   ":parse", ":env", ":reset", ":help", "exit"]

/-- The words that start with the given letters. -/
def completions (start : String) : List String :=
  completable.filter (start.toList.isPrefixOf ·.toList)

/-- A text without the blanks around it. -/
def trimmed (s : String) : String :=
  String.ofList (Text.trim s.toList)

/-- The report of a problem, given the wordings for a text that is refused, for a failure of the program
and for a full stack. Of other failures of the host no report is made. -/
def reportWith (refused : ParseError → String) (failed : RuntimeError → String) (full : String) :
    Problem → Except Fault String
  | .parse e => .ok (refused e)
  | .failure (.runtime e) => .ok (failed e)
  | .failure (.fault .stackFull) => .ok full
  | .failure (.fault fault) => .error fault

/-- How a problem is shown in a dialogue. -/
def dialogueReport : Problem → Except Fault String :=
  reportWith (fun e => "Parse error: " ++ e.text ++ "\n")
    (fun e => "\nRuntime Error:\n  " ++ e.message ++ "\n\n")
    "\nRuntime Error:\n  maximum recursion depth exceeded\n\n"

/-- What a step of a dialogue leads to. -/
inductive Turn where
  /-- the next line -/
  | next (session : Session)
  /-- the end that was asked for -/
  | left (session : Session)
  /-- an end by a failure of the host -/
  | broken (fault : Fault) (session : Session)

namespace Console

/-- Shows a text. -/
def tell (s : Session) (text : String) : Session :=
  { s with world := { s.world with output := s.world.output ++ text } }

/-- Shows a problem, or ends if it is one that cannot be shown. -/
def complain (s : Session) (p : Problem) : Turn :=
  match dialogueReport p with
  | .ok text => .next (tell s text)
  | .error fault => .broken fault s

/-- Shows a text made of values, all of which must have one. -/
def tellText (s : Session) (text? : Option String) : Turn :=
  match text? with
  | some text => .next (tell s text)
  | none => .broken .tooManyDigits s

/-- At most sixty characters of a text. -/
def shorten (s : String) : String :=
  if 60 < s.length then String.ofList (s.toList.take 57) ++ "..." else s

/-- Shows the bindings one after the other, up to one whose value has no text. -/
def listBindings (form : String → String) : Bindings → Session → Turn
  | [], s => .next s
  | (name, v) :: bs, s =>
    match v.text? with
    | some text => listBindings form bs (tell s ("  " ++ name ++ " = " ++ form text ++ "\n"))
    | none => .broken .tooManyDigits s

/-- The command `:parse` with the text after it. It reports a text that is no expression, but not that
the stack has no room. -/
def parseCommand (s : Session) (source : String) : Turn :=
  if s.host.stack.reads source then
    match parseExpression source "<input>" with
    | .error p => complain s p
    | .ok n =>
      if s.host.stack.outlines n then tellText s (n.outlineText? 0) else .broken .stackFull s
  else .broken .stackFull s

/-- The command `:env`. -/
def envCommand (s : Session) : Turn :=
  if s.bindings.isEmpty then .next (tell s "  (no user-defined bindings)\n")
  else listBindings shorten s.bindings s

/-- Runs a line as a program, if the stack has room to read it. -/
def runLine (s : Session) (source : String) : Except Problem Value × Session :=
  if s.host.stack.reads source then s.runSource source "<stdin>"
  else (.error (.failure (.fault .stackFull)), s)

/-- A line that is no command. -/
def programLine (s : Session) (source : String) : Turn :=
  match runLine s source with
  | (.error p, s) => complain s p
  | (.ok .none, s) => .next s
  | (.ok v, s) => tellText s (v.text?.map fun t => "=> " ++ t ++ "\n")

/-- What a command that shows the outline of an expression starts with. -/
def outlineCommand : String := ":parse "

/-- What one line does. -/
def line (s : Session) (code : String) : Turn :=
  let command := trimmed code
  if command = "exit" then .left s
  else if command = "" then .next s
  else if outlineCommand.toList.isPrefixOf code.toList then
    parseCommand s (String.ofList (code.toList.drop outlineCommand.length))
  else if command = ":env" then envCommand s
  else if command = ":reset" then .next s.reset
  else if command = ":help" then .next (tell s helpText)
  else programLine s code

/-- A dialogue from here on, with the prompt before each line. The end of the lines is answered with a
farewell. -/
def run : List String → Session → Turn
  | [], s => .left (tell (tell s prompt) farewell)
  | code :: rest, s =>
    match line (tell s prompt) code with
    | .next s => run rest s
    | turn => turn

end Console

end Kestrel.CommandLine
