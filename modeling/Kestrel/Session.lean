import Kestrel.Eval.Node
import Kestrel.Reader.Program

/-!
# Sessions

A session reads and runs texts one after the other in one global scope, which keeps what earlier texts
bound there.

* `Session`, `Session.fresh` — a session, and one in which nothing has happened;
* `Session.runSource`, `Session.evalExpression`, `Session.runFile` — the steps, each with a value or
  a problem, and the session after it;
* `Session.reset` — forgets all that is bound.

Whether the stack has room to read a text is asked where the text comes from. `parseFile` does so;
`Session.runSource` and `Session.evalExpression` are handed a text that there is room for.
-/

namespace Kestrel

/-- A program from a file. A file that does not exist or is no text is reported like a text that is no
program. -/
def parseFile (host : Host) (path : String) : Except Problem (List Node) :=
  match host.files.readText path with
  | .error fault => .error (.failure (.fault fault))
  | .ok (.error (.unopened .missing)) =>
    .error (.parse { message := "File not found: " ++ path, filename := path })
  | .ok (.error (.unopened fault)) => .error (.failure (.fault (.unopened fault)))
  | .ok (.error (.undecodable malformed)) =>
    .error (.parse
      { message := "Cannot decode file " ++ path ++ ": " ++ malformed.text, filename := path })
  | .ok (.ok source) =>
    if host.stack.reads source then parseProgram source path
    else .error (.failure (.fault .stackFull))

/-- A session. -/
structure Session where
  /-- what it runs on -/
  host : Host
  /-- what it has done so far -/
  world : World

namespace Session

/-- The global scope. -/
def globalScope : ScopeId := 0

/-- The scopes of a session in which nothing is bound. -/
def freshStore : Store := Store.root []

/-- A session in which nothing has happened. -/
def fresh (host : Host) : Session :=
  ⟨host, freshStore, "", ""⟩

/-- What the global scope binds. -/
def bindings (s : Session) : Bindings :=
  s.world.store.bindings globalScope

/-- Does a computation in a session. -/
def perform {α : Type} (s : Session) (m : Eval α) : Except Problem α × Session :=
  match m s.world with
  | (.ok a, w) => (.ok a, { s with world := w })
  | (.error e, w) => (.error (.failure e), { s with world := w })

/-- Notes in the trace how many statements were read. -/
def noteParsed (host : Host) (filename : String) (statements : List Node) : Eval Unit :=
  Eval.traceLine host fun _ =>
    "[parse] " ++ filename ++ ": " ++ toString statements.length ++ " statements"

/-- Runs a program, if reading it gave one. -/
def runParsed (s : Session) (filename : String) (program : Except Problem (List Node)) :
    Except Problem Value × Session :=
  match program with
  | .error e => (.error e, s)
  | .ok statements =>
    s.perform do
      noteParsed s.host filename statements
      evalProgram s.host globalScope statements

/-- Runs a program from its text; the value is that of its last statement. -/
def runSource (s : Session) (source filename : String) : Except Problem Value × Session :=
  s.runParsed filename (parseProgram source filename)

/-- Runs a program from a file. -/
def runFile (s : Session) (path : String) : Except Problem Value × Session :=
  s.runParsed path (parseFile s.host path)

/-- The value of a single expression. -/
def evalExpression (s : Session) (source : String) : Except Problem Value × Session :=
  match parseExpression source "<input>" with
  | .error e => (.error e, s)
  | .ok e => s.perform (e.eval s.host globalScope)

/-- Forgets all that is bound. What was printed stays printed. -/
def reset (s : Session) : Session :=
  { s with world := { s.world with store := freshStore } }

end Session

end Kestrel
