import Kestrel.CommandLine.Run

/-!
# The program

The outer layer: it fetches files, reads lines and writes texts. What is written, and how the program
ends, is decided by `taskOf`, `runNamed` and `Console.line`.

Work that needs a file ends with `Fault.notSupplied`. The file is then fetched and the work is done
again from its start, which leads to the same point because nothing else has changed.
-/

namespace Kestrel.CommandLine

/-- The stack that programs are given here: room for many calls, well within what there really is. -/
def defaultStack : Stack := .ofCalls 1500

/-- Files fetched so far, by path. -/
abbrev Fetched := List (String × FileAnswer)

/-- The files fetched so far. All others are still owed. -/
def Fetched.files (known : Fetched) : Files := fun path =>
  (known.lookup path).getD .notYet

/-- The number of a fault of the host, which may come with its sign turned. -/
def faultNumber (code : UInt32) : Nat :=
  if code.toNat < 0x80000000 then code.toNat else 0x100000000 - code.toNat

/-- The fault that has this number. -/
def faultOfNumber (number : Nat) (text : String) : OpenFault :=
  if number = OpenFault.isDirectory.number then .isDirectory
  else if number = OpenFault.notDirectory.number then .notDirectory
  else if number = OpenFault.nameTooLong.number then .nameTooLong
  else .other number text

/-- Why the host did not open a file. -/
def openFault : IO.Error → OpenFault
  | .noFileOrDirectory _ _ _ => .missing
  | .permissionDenied _ _ _ => .denied
  | .inappropriateType _ code text => faultOfNumber (faultNumber code) text
  | .invalidArgument _ code text => faultOfNumber (faultNumber code) text
  | e => .other 0 (toString e)

/-- Asks the host for a file. -/
def fetch (path : String) : IO FileAnswer := do
  try
    return .bytes (← IO.FS.readBinFile path).toList
  catch e =>
    return .refused (openFault e)

/-- Does work that needs files. As long as its result owes the file at some path, the file is fetched
and the work done again. -/
partial def withFiles {α : Type} (work : Files → α) (owed? : α → Option String)
    (known : Fetched) : IO α := do
  let result := work known.files
  match owed? result with
  | none => return result
  | some path => withFiles work owed? ((path, ← fetch path) :: known)

/-- The path of the file for want of which a report is incomplete. -/
def Report.owed? (r : Report) : Option String :=
  match r.ending with
  | .broken (.notSupplied path) => some path
  | _ => none

/-- The path of the file for want of which a step of a dialogue is incomplete. -/
def Turn.owed? : Turn → Option String
  | .broken (.notSupplied path) _ => some path
  | _ => none

/-- Writes the two texts of a report, and the exit status. -/
def emit (r : Report) : IO UInt32 := do
  (← IO.getStdout).putStr r.stdout
  let stderr ← IO.getStderr
  stderr.putStr r.stderr
  match r.ending with
  | .exit status => return UInt32.ofNat status
  | .broken fault =>
    stderr.putStrLn ("kestrel: " ++ fault.text)
    return 1

/-- Writes what a session has shown and traced. -/
def emitSession (s : Session) (ending : Ending) : IO UInt32 :=
  emit ⟨s.world.output, s.world.trace, ending⟩

/-- A session that has shown and traced nothing. -/
def cleared (s : Session) : Session :=
  ⟨s.host, s.world.store, "", ""⟩

/-- A dialogue from here on. -/
partial def converse (s : Session) : IO UInt32 := do
  let stdout ← IO.getStdout
  stdout.putStr prompt
  stdout.flush
  let input ← (← IO.getStdin).getLine
  if input.isEmpty then
    stdout.putStr farewell
    return 0
  let code := (inputLines input).headD ""
  let step (files : Files) : Turn := Console.line ⟨{ s.host with files }, s.world⟩ code
  match ← withFiles step Turn.owed? [] with
  | .next s =>
    let _ ← emitSession s (.exit 0)
    converse (cleared s)
  | .left s => emitSession s (.exit 0)
  | .broken fault s => emitSession s (.broken fault)

/-- Does what the arguments amount to. -/
def perform : Task → IO UInt32
  | .report r => emit r
  | .script o path => do
    emit (← withFiles (fun files => runNamed ⟨files, o.debug, defaultStack⟩ o path) Report.owed? [])
  | .dialogue debug introduction => do
    (← IO.getStdout).putStr (introduction ++ greeting debug)
    converse (Session.fresh ⟨Files.empty, debug, defaultStack⟩)

end Kestrel.CommandLine

/-- The program. -/
def main (args : List String) : IO UInt32 :=
  Kestrel.CommandLine.perform (Kestrel.CommandLine.taskOf args)
