import Kestrel.Proofs.CommandLine.Endings
import Kestrel.Proofs.Tracing.Debug

/-!
# What is bound can be listed

A program may compute integers of any size, and an integer with too many digits has no text. But wherever
a dialogue asks for a line, and wherever a script has come to its end, every value that is bound has a
text: one without a text makes the program fail as soon as it is bound, and neither a dialogue nor a
script goes on after that failure. So the bindings can be listed there.

* `Turn.Writable` — a step of a dialogue that leads on leads to scopes whose values have texts;
* `Console.writable_line` — one line;
* `Console.Answers.writable` — a whole dialogue;
* `evalWithin_sumWithOne` — integers of any size are computed with;
* `bindings_listable` — what `:env` and a script with a trace list.
-/

namespace Kestrel.CommandLine

open Kestrel.Session (globalScope)

/-- If the step leads on to the next line, every value that is bound then has a text. -/
def Turn.Writable (turn : Turn) : Prop := ∀ s, turn = .next s → s.world.store.Writable

theorem Turn.writable_next {s : Session} (h : s.world.store.Writable) : (Turn.next s).Writable :=
  fun _ heq => Turn.next.inj heq ▸ h

theorem Turn.writable_broken (fault : Fault) (s : Session) : (Turn.broken fault s).Writable := by
  rintro _ ⟨⟩

/-- The dialogue has broken off. -/
def Turn.isBroken : Turn → Bool
  | .broken _ _ => true
  | .next _ | .left _ => false

namespace Console

variable {s s' : Session} {code : String}

/-! ### One line -/

theorem writable_tellText (h : s.world.store.Writable) (text? : Option String) :
    (tellText s text?).Writable := by
  cases text? with
  | some text => exact Turn.writable_next h
  | none => exact Turn.writable_broken _ s

/-- A dialogue does not go on after the failure of a program for want of a text. -/
theorem writable_complain {p : Problem}
    (h : p ≠ .failure (.fault .tooManyDigits) → s.world.store.Writable) :
    (complain s p).Writable := by
  rw [complain]
  cases hreport : dialogueReport p with
  | ok text =>
    refine Turn.writable_next (h ?_)
    rintro rfl
    cases hreport
  | error fault => exact Turn.writable_broken fault s

theorem writable_parseCommand (h : s.world.store.Writable) (source : String) :
    (parseCommand s source).Writable := by
  rw [parseCommand]
  split_ifs
  · split
    · exact writable_complain fun _ => h
    · split_ifs
      · exact writable_tellText h _
      · exact Turn.writable_broken _ s
  · exact Turn.writable_broken _ s

/-- Bindings whose values have texts are listed to the end. -/
theorem exists_listBindings_eq (form : String → String) {bs : Bindings} (h : bs.Writable)
    (s : Session) : ∃ text, listBindings form bs s = .next (tell s text) := by
  induction bs generalizing s with
  | nil => exact ⟨"", by rw [listBindings, tell, String.append_empty]⟩
  | cons b bs ih =>
    obtain ⟨hb, hbs⟩ := List.forall_mem_cons.mp h
    obtain ⟨text, htext⟩ := Option.isSome_iff_exists.mp hb
    obtain ⟨texts, hrest⟩ := ih hbs (tell s ("  " ++ b.1 ++ " = " ++ form text ++ "\n"))
    rw [listBindings, htext]
    dsimp only
    rw [hrest, tell_tell]
    exact ⟨_, rfl⟩

theorem exists_envCommand_eq (h : s.world.store.Writable) :
    ∃ text, envCommand s = .next (tell s text) := by
  rw [envCommand]
  split
  · exact ⟨_, rfl⟩
  · exact exists_listBindings_eq shorten (h globalScope) s

theorem writable_envCommand (h : s.world.store.Writable) : (envCommand s).Writable := by
  obtain ⟨text, htext⟩ := exists_envCommand_eq h
  rw [htext]
  exact Turn.writable_next h

theorem writable_runLine (h : s.world.store.Writable) (source : String)
    (hrun : (runLine s source).1 ≠ .error (.failure (.fault .tooManyDigits))) :
    (runLine s source).2.world.store.Writable := by
  rw [runLine] at hrun ⊢
  split_ifs at hrun ⊢
  · exact Session.writable_runParsed h "<stdin>" _ hrun
  · exact h

theorem writable_programLine (h : s.world.store.Writable) (source : String) :
    (programLine s source).Writable := by
  have hstore := writable_runLine h source
  unfold programLine
  generalize runLine s source = r at hstore
  obtain ⟨p | v, s'⟩ := r
  · exact writable_complain fun hp => hstore fun he => hp (Except.error.inj he)
  · have hs' : s'.world.store.Writable := hstore fun he => by cases he
    cases v with
    | none => exact Turn.writable_next hs'
    | _ => exact writable_tellText hs' _

/-- A line that leads on to the next one leaves only values that have texts. -/
theorem writable_line (h : s.world.store.Writable) (code : String) : (line s code).Writable := by
  unfold line
  dsimp only
  split_ifs
  · exact nofun
  · exact Turn.writable_next h
  · exact writable_parseCommand h _
  · exact writable_envCommand h
  · exact Turn.writable_next Session.writable_freshStore
  · exact Turn.writable_next h
  · exact writable_programLine h code

/-! ### Dialogues -/

theorem Answers.writable {lines : List String} (h : Answers s lines s')
    (hs : s.world.store.Writable) : s'.world.store.Writable := by
  induction h with
  | nil => exact hs
  | @cons s s' s'' code rest hline _ _ ih =>
    exact ih (writable_line (s := tell s prompt) hs code _ hline)

/-- A dialogue that neither is left nor breaks off answers all its lines. -/
theorem Ends.exists_answers {lines : List String} {turn : Turn} (h : Ends s lines turn)
    (hleft : ∀ code ∈ lines, trimmed code ≠ "exit") (hbroken : turn.isBroken = false) :
    ∃ s', Answers s lines s' := by
  cases h with
  | left hlines _ hexit =>
    exact absurd hexit (hleft _ (hlines ▸ List.mem_append_right _ List.mem_cons_self))
  | ended hanswers => exact ⟨_, hanswers⟩
  | broken => cases hbroken

/-- After lines that were answered a dialogue goes on with the others. -/
theorem Answers.run_append {lines : List String} (h : Answers s lines s') (rest : List String) :
    run (lines ++ rest) s = run rest s' := by
  induction h with
  | nil => rfl
  | cons hline _ _ ih =>
    rw [List.cons_append, run, hline]
    exact ih

theorem trim_eq_of_trimmed_eq {text : String} (h : trimmed code = text) :
    Text.trim code.toList = text.toList := by
  rw [← h, trimmed, String.toList_ofList]

theorem trim_prefix (cs : List Char) : Text.trim cs <+: Text.trimStart cs := by
  rw [Text.trim, ← List.reverse_suffix, List.reverse_reverse]
  exact List.dropWhile_suffix _

/-- The command `:env`, however many blanks stand around it. -/
theorem line_eq_envCommand (s : Session) (hcode : trimmed code = ":env") :
    line s code = envCommand s := by
  have houtline : ¬ outlineCommand.toList.isPrefixOf code.toList = true := by
    rw [List.isPrefixOf_iff_prefix]
    rintro ⟨source, hsource⟩
    have hprefix := trim_prefix code.toList
    rw [trim_eq_of_trimmed_eq hcode, ← hsource] at hprefix
    have hstart : Text.trimStart (outlineCommand.toList ++ source) =
        outlineCommand.toList ++ source := rfl
    rw [hstart] at hprefix
    obtain ⟨-, htail⟩ := List.cons_prefix_cons.mp hprefix
    exact absurd (List.cons_prefix_cons.mp htail).1 (by decide)
  unfold line
  dsimp only
  rw [hcode, if_neg (by decide), if_neg (by decide), if_neg houtline, if_pos rfl]

end Console

/-! ### Scripts -/

/-- A script that has run without failure ends with status 0, also where all that it has bound is
listed. -/
theorem ending_runScript {host : Host} {path : String} {v : Value} {s : Session}
    (h : (Session.fresh host).runFile path = (.ok v, s)) :
    (runScript host path).ending = .exit 0 := by
  have hlisted : (bindingLines s.bindings).2 = none :=
    bindingLines_writable (Session.writable_of_runFile h globalScope)
  rw [runScript, h]
  dsimp only [scriptDone]
  split_ifs
  · rw [hlisted]
  · rfl

/-! ### Integers without a text -/

/-- A sum of two numerals. It may have one digit more than they have. -/
def sumWithOne (n : Int) : Node := .binary .add (.int (n - 1)) (.int 1)

theorem not_withinLimit_of_le {n : Nat} (h : Nat.pow 10 Text.digitLimit ≤ n) :
    ¬Text.WithinLimit n := by
  rw [Text.WithinLimit, Int.natAbs_natCast]
  exact Nat.not_lt.mpr h

/-- The sum is computed, and it is computed with, of whatever size it is. -/
theorem evalWithin_sumWithOne (n : Int) (host : Host) (calls : Nat) (scope : ScopeId) (w : World) :
    (sumWithOne n).evalWithin host calls scope w = (.ok (.int n), w) ∧
      (Node.binary .equal (sumWithOne n) (sumWithOne n)).evalWithin host calls scope w =
        (.ok (.bool true), w) := by
  have hsum : BinaryOp.add.apply (.int (n - 1)) (.int 1) = .ok (.int n) := by
    rw [BinaryOp.apply, Int.sub_add_cancel]
  have hequal : BinaryOp.equal.apply (.int n) (.int n) = .ok (.bool true) := by
    rw [BinaryOp.apply, decide_eq_true rfl]
  have hwith (run : Runner) : (sumWithOne n).evalWith host run scope = pure (.int n) := by
    simp only [sumWithOne, Node.evalWith, Eval.pure_bind, hsum]
    rfl
  cases calls with
  | zero | succ =>
    simp only [Node.evalWithin, Node.evalWith, hwith, Eval.pure_bind, hequal]
    exact ⟨rfl, rfl⟩

/-- Whatever is bound can be listed.

Whenever a dialogue asks for a line, every integer that the global scope binds has at most `digitLimit`
digits, and if the line is `:env` the dialogue shows its answer and goes on. A script that is run with a
trace and does not fail ends with status 0, after the list of all that it has bound. This is so although
programs may compute longer integers and go on with them. -/
theorem bindings_listable :
    (∀ (host : Host) (introduction : String) (lines : List String) (s : Session),
      let start := Console.tell (Session.fresh host) (introduction ++ greeting host.debug)
      Console.Answers start lines s →
        (∀ name n, (name, Value.int n) ∈ s.bindings → Text.WithinLimit n) ∧
        ∀ code rest, trimmed code = ":env" →
          ∃ text, Console.run (lines ++ code :: rest) start =
            Console.run rest (Console.tell (Console.tell s prompt) text)) ∧
    (∀ (stack : Stack) (args lines : List String) (files : Files) (o : Options) (path : String)
      (v : Value) (s : Session), taskOf args = .script o path → o.debug = true → o.parse = false →
        pathExists files path = .ok true →
        (Session.fresh ⟨files, true, stack⟩).runFile path = (.ok v, s) →
          (run stack args files lines).ending = .exit 0) ∧
    ∃ n, ¬Text.WithinLimit n ∧ ∀ (host : Host) (calls : Nat) (scope : ScopeId) (w : World),
      (sumWithOne n).evalWithin host calls scope w = (.ok (.int n), w) ∧
        (Node.binary .equal (sumWithOne n) (sumWithOne n)).evalWithin host calls scope w =
          (.ok (.bool true), w) := by
  refine ⟨?_, ?_, _, not_withinLimit_of_le (Nat.le_refl _), evalWithin_sumWithOne _⟩
  · intro host introduction lines s start hanswers
    have hstore : s.world.store.Writable := hanswers.writable Session.writable_freshStore
    refine ⟨fun name n hn => ?_, fun code rest hcode => ?_⟩
    · have hwritable : (Value.int n).Writable := hstore globalScope (name, .int n) hn
      exact Value.writable_int_iff.mp hwritable
    · obtain ⟨text, htext⟩ := Console.exists_envCommand_eq (s := Console.tell s prompt) hstore
      refine ⟨text, ?_⟩
      rw [hanswers.run_append, Console.run, Console.line_eq_envCommand _ hcode, htext]
  · intro stack args lines files o path v s htask hdebug hparse hpath hrun
    rw [run, htask]
    dsimp only
    rw [runNamed, hdebug, hpath, hparse]
    exact ending_runScript hrun

/-- A dialogue in which a name is bound and a line fails, and a script that binds a name. -/
theorem bindings_listable_small :
    let host : Host := ⟨Files.empty, false, .ofCalls 1000⟩
    let start := Console.tell (Session.fresh host) ("" ++ greeting host.debug)
    let lines := ["x = 7", "x = x + y"]
    let files : Files := fun _ => .bytes "a = 7".toUTF8.toList
    (∃ s, Console.Answers start lines s ∧
      (∀ name n, (name, Value.int n) ∈ s.bindings → Text.WithinLimit n) ∧
      ∃ text, Console.run (lines ++ [":env"]) start =
        Console.run [] (Console.tell (Console.tell s prompt) text)) ∧
      (run (.ofCalls 1000) ["--debug", "a.ks"] files []).ending = .exit 0 := by
  intro host start lines files
  have htask : taskOf ["--debug", "a.ks"] =
      .script { debug := true, script := some "a.ks" } "a.ks" := by rfl
  have hanswered : ∃ s, Console.Answers start lines s :=
    (Console.ends_run lines start).exists_answers (by decide +kernel) (by decide +kernel)
  have hrun : ∃ v s, (Session.fresh ⟨files, true, .ofCalls 1000⟩).runFile "a.ks" = (.ok v, s) := by
    have hok : ((Session.fresh ⟨files, true, .ofCalls 1000⟩).runFile "a.ks").1.toBool = true := by
      decide +kernel
    generalize (Session.fresh ⟨files, true, .ofCalls 1000⟩).runFile "a.ks" = r at hok
    obtain ⟨_ | v, s⟩ := r
    · cases hok
    · exact ⟨v, s, rfl⟩
  obtain ⟨s, hanswers⟩ := hanswered
  obtain ⟨hwithin, hlist⟩ := bindings_listable.1 host "" lines s hanswers
  obtain ⟨v, s', hrun⟩ := hrun
  refine ⟨⟨s, hanswers, hwithin, hlist ":env" [] (by decide +kernel)⟩, ?_⟩
  exact bindings_listable.2.1 _ _ [] files _ "a.ks" v s' htask rfl rfl (by decide +kernel) hrun

end Kestrel.CommandLine
