import Kestrel.CommandLine.Run
import Kestrel.Proofs.Failing.Raises
import Kestrel.Proofs.Lockstep.Progress

/-!
# What is reported

Whatever goes wrong where a text is read and run is reported, but for some failures of the host: a path
that leads to a directory or cannot be opened for another reason than that there is nothing, a path with a
null character, and texts and numerals that are too long. That the stack has no more room is reported.

* `Fault.Escapes` — the failures of the host that no report is made of;
* `Problem.Told` — what goes wrong is reported, unless it is such a failure;
* `Session.told_runSource`, `Session.told_runFile` — steps of a session;
* `CommandLine.escapes_of_reportWith` — where no report is made of a problem.
-/

namespace Kestrel

/-- The failures of a host with these files that no report is made of. -/
inductive Fault.Escapes (files : Files) : Fault → Prop where
  /-- a numeral would have too many digits -/
  | tooManyDigits : Escapes files .tooManyDigits
  /-- a text is to be repeated too often -/
  | repeatOverflow : Escapes files .repeatOverflow
  /-- a path holds a null character -/
  | nulInPath : Escapes files .nulInPath
  /-- a file is there, or a directory, but cannot be opened -/
  | unopened {path : String} {fault : OpenFault} (h : files path = .refused fault)
    (hfault : fault ≠ .missing) : Escapes files (.unopened fault)
  /-- the host owes an answer -/
  | notSupplied {path : String} (h : files path = .notYet) : Escapes files (.notSupplied path)

variable {files : Files} {source filename : String}

/-- The problem is no failure of the host, or the one that is reported, or one that no report is made
of. -/
def Problem.Told (files : Files) (p : Problem) : Prop :=
  ∀ fault : Fault, p = .failure (.fault fault) → fault ≠ .stackFull → fault.Escapes files

namespace Problem.Told

theorem parse (e : ParseError) : Told files (.parse e) := nofun

theorem stackFull : Told files (.failure (.fault .stackFull)) := by
  rintro _ ⟨⟩ hfull
  exact absurd rfl hfull

theorem fault {fault : Fault} (h : fault.Escapes files) : Told files (.failure (.fault fault)) := by
  rintro _ ⟨⟩ -
  exact h

/-- A failure of an evaluation. -/
theorem failure {e : Failure} (h : e.Arises files) : Told files (.failure e) := by
  cases h with
  | runtime e => exact nofun
  | fault h =>
    cases h with
    | tooManyDigits => exact fault .tooManyDigits
    | repeatOverflow => exact fault .repeatOverflow
    | nulInPath => exact fault .nulInPath
    | stackFull => exact stackFull
    | notSupplied h => exact fault (.notSupplied h)

/-- A text that is refused. -/
theorem parseWith {α : Type} {read : List Char → Except Reader.Rejection α} {p : Problem}
    (hread : ∀ cs, read cs ≠ .error (.halted .exhausted))
    (h : parseWith read source filename = .error p) : Told files p := by
  rw [Kestrel.parseWith] at h
  split at h
  next => cases h
  next r hr =>
    cases h
    cases r with
    | misread m rest => exact parse _
    | halted reason =>
      cases reason with
      | tooManyDigits => exact fault .tooManyDigits
      | exhausted => exact (hread _ hr).elim

theorem parseProgram {p : Problem} (h : parseProgram source filename = .error p) : Told files p :=
  parseWith Reader.readStatements_ne_exhausted h

theorem parseExpression {p : Problem} (h : parseExpression source filename = .error p) :
    Told files p :=
  parseWith Reader.readExpression_ne_exhausted h

theorem refused_of_readText {path : String} {fault : OpenFault}
    (h : files.readText path = .ok (.error (.unopened fault))) : files path = .refused fault := by
  rw [Files.readText] at h
  split at h
  · cases h
  · split at h
    next => cases h
    next hpath =>
      cases h
      exact hpath
    next => split at h <;> cases h

/-- A file that holds no program. -/
theorem parseFile {host : Host} {path : String} {p : Problem} (h : parseFile host path = .error p) :
    Told host.files p := by
  rw [Kestrel.parseFile] at h
  split at h
  next hread =>
    cases h
    exact failure (.fault (Failure.Only.readText path hread))
  next =>
    cases h
    exact parse _
  next openFault hmissing hread =>
    cases h
    refine fault (.unopened (refused_of_readText hread) ?_)
    rintro rfl
    exact hmissing rfl
  next =>
    cases h
    exact parse _
  next =>
    split at h
    · exact parseProgram h
    · cases h
      exact stackFull

end Problem.Told

/-! ### Sessions -/

namespace Session

variable {s s' : Session} {p : Problem}

theorem told_perform {α : Type} {m : Eval α} (hm : m.Raises s.host.files)
    (h : s.perform m = (.error p, s')) : p.Told s.host.files := by
  have honly := hm s.world
  rw [perform] at h
  split at h
  next => cases h
  next e w heq =>
    cases h
    rw [heq] at honly
    exact .failure (honly e rfl)

theorem told_runParsed {program : Except Problem (List Node)}
    (hprogram : ∀ p, program = .error p → p.Told s.host.files)
    (h : s.runParsed filename program = (.error p, s')) : p.Told s.host.files := by
  cases program with
  | error q =>
    cases h
    exact hprogram p rfl
  | ok statements =>
    refine told_perform ?_ h
    exact .bind (.traceLine _ _) fun _ => .bind (.traceLine _ _) fun _ =>
      Node.raises_evalWithin s.host s.host.calls globalScope (.block statements)

theorem told_runSource (h : s.runSource source filename = (.error p, s')) : p.Told s.host.files :=
  told_runParsed (fun _ => .parseProgram) h

theorem host_perform {α : Type} {m : Eval α} {r : Except Problem α} (h : s.perform m = (r, s')) :
    s'.host = s.host := by
  rw [perform] at h
  split at h <;> cases h <;> rfl

theorem host_runParsed {program : Except Problem (List Node)} {r : Except Problem Value}
    (h : s.runParsed filename program = (r, s')) : s'.host = s.host := by
  cases program with
  | error q =>
    cases h
    rfl
  | ok statements => exact host_perform h

theorem host_runSource {r : Except Problem Value} (h : s.runSource source filename = (r, s')) :
    s'.host = s.host := by
  rw [runSource] at h
  exact host_runParsed h

end Session

/-- Where no report is made of a problem that was to be told, it is such a failure. -/
theorem CommandLine.escapes_of_reportWith {refused : ParseError → String}
    {failed : RuntimeError → String} {full : String} {p : Problem} {fault : Fault}
    (hp : p.Told files) (h : reportWith refused failed full p = .error fault) :
    p = .failure (.fault fault) ∧ fault.Escapes files := by
  have heq : p = .failure (.fault fault) ∧ fault ≠ .stackFull := by
    rcases p with e | ⟨e | fault'⟩
    · cases h
    · cases h
    · cases fault' <;> cases h <;> exact ⟨rfl, nofun⟩
  exact ⟨heq.1, hp fault heq.1 heq.2⟩

end Kestrel
