import Kestrel.Proofs.CommandLine.Told

/-!
# Dialogues

A dialogue answers one line after the other, each in the session that the one before has left: a command
is carried out, a program is run and its value is shown, and a line that fails is reported. A line at
which the dialogue breaks off meets a failure of the host of which no report is made, or is a `:parse`
for which the stack has no room: there alone a full stack is not reported.

* `Console.Fails` — a line that fails;
* `Console.Answered` — a line that is answered, and the session it leaves;
* `Console.Breaks` — a line at which the dialogue breaks off;
* `Console.Answers`, `Console.Ends` — whole dialogues;
* `Console.ends_run` — how a dialogue ends.
-/

namespace Kestrel.CommandLine.Console

/-! ### Lines -/

/-- The line is a program: it is neither blank nor a command. -/
structure IsProgram (code : String) : Prop where
  /-- it is neither blank nor a single word that is a command -/
  ne_word : trimmed code ∉ ["exit", "", ":env", ":reset", ":help"]
  /-- it does not ask for an outline -/
  ne_outline : outlineCommand.toList.isPrefixOf code.toList = false

/-- The line asks for the outline of an expression that there is room to read. -/
structure AsksOutline (s : Session) (code source : String) : Prop where
  /-- the expression stands behind the command -/
  eq_append : code = outlineCommand ++ source
  /-- there is room to read it -/
  reads : s.host.stack.reads source = true

/-- The line fails with the problem, and this is the session it leaves. -/
inductive Fails (s : Session) (code : String) : Problem → Session → Prop where
  /-- a program that cannot be read, or whose evaluation fails -/
  | program {p : Problem} {s' : Session} (hcode : IsProgram code)
    (hrun : runLine s code = (.error p, s')) : Fails s code p s'
  /-- an expression that cannot be read, whose outline is asked for -/
  | expression {source : String} {p : Problem} (hcode : AsksOutline s code source)
    (hparse : parseExpression source "<input>" = .error p) : Fails s code p s

/-- The binding, and the text of the value that it binds. -/
def Shown (b : String × Value) (shown : String × String) : Prop :=
  b.1 = shown.1 ∧ b.2.text? = some shown.2

/-- The lines that show bindings. -/
def shownLines (shown : List (String × String)) : String :=
  String.join (shown.map fun (name, text) => "  " ++ name ++ " = " ++ shorten text ++ "\n")

/-- The line is answered in a session, and this is the session it leaves. -/
inductive Answered (s : Session) (code : String) : Session → Prop where
  /-- a blank line is passed over -/
  | blank (hcode : trimmed code = "") : Answered s code s
  /-- the value of a program is shown -/
  | value {v : Value} {text : String} {s' : Session} (hcode : IsProgram code)
    (hrun : runLine s code = (.ok v, s')) (hv : v ≠ .none) (htext : v.text? = some text) :
    Answered s code (tell s' ("=> " ++ text ++ "\n"))
  /-- but not the value `None` -/
  | noValue {s' : Session} (hcode : IsProgram code) (hrun : runLine s code = (.ok .none, s')) :
    Answered s code s'
  /-- an outline is shown -/
  | outline {source text : String} {n : Node} (hcode : AsksOutline s code source)
    (hparse : parseExpression source "<input>" = .ok n) (hroom : s.host.stack.outlines n = true)
    (htext : n.outlineText? 0 = some text) : Answered s code (tell s text)
  /-- that nothing is bound is shown -/
  | unbound (hcode : trimmed code = ":env") (hbound : s.bindings = []) :
    Answered s code (tell s "  (no user-defined bindings)\n")
  /-- all that is bound is shown -/
  | bound {shown : List (String × String)} (hcode : trimmed code = ":env")
    (hbound : s.bindings ≠ []) (hshown : List.Forall₂ Shown s.bindings shown) :
    Answered s code (tell s (shownLines shown))
  /-- all that is bound is forgotten -/
  | reset (hcode : trimmed code = ":reset") : Answered s code s.reset
  /-- help is given -/
  | help (hcode : trimmed code = ":help") : Answered s code (tell s helpText)
  /-- a failure is reported -/
  | failed {p : Problem} {text : String} {s' : Session} (hfails : Fails s code p s')
    (htext : dialogueReport p = .ok text) : Answered s code (tell s' text)

/-- At the line the dialogue breaks off by the failure, and this is the session it leaves. -/
inductive Breaks (s : Session) (code : String) : Fault → Session → Prop where
  /-- a line that fails in such a way -/
  | failed {fault : Fault} {s' : Session} (hfails : Fails s code (.failure (.fault fault)) s')
    (hfault : fault.Escapes s.host.files) : Breaks s code fault s'
  /-- a program whose value has no text -/
  | value {v : Value} {s' : Session} (hcode : IsProgram code)
    (hrun : runLine s code = (.ok v, s')) (htext : v.text? = none) :
    Breaks s code .tooManyDigits s'
  /-- an expression whose outline has no text -/
  | outline {source : String} {n : Node} (hcode : AsksOutline s code source)
    (hparse : parseExpression source "<input>" = .ok n) (hroom : s.host.stack.outlines n = true)
    (htext : n.outlineText? 0 = none) : Breaks s code .tooManyDigits s
  /-- an expression that the stack has no room to read -/
  | unread {source : String} (hcode : code = outlineCommand ++ source)
    (hroom : s.host.stack.reads source = false) : Breaks s code .stackFull s
  /-- an expression that the stack has no room to outline -/
  | unoutlined {source : String} {n : Node} (hcode : AsksOutline s code source)
    (hparse : parseExpression source "<input>" = .ok n) (hroom : s.host.stack.outlines n = false) :
    Breaks s code .stackFull s
  /-- a binding whose value has no text, behind others that are shown -/
  | bound {before after : Bindings} {name : String} {v : Value} {shown : List (String × String)}
    (hcode : trimmed code = ":env") (hbound : s.bindings = before ++ (name, v) :: after)
    (hshown : List.Forall₂ Shown before shown) (htext : v.text? = none) :
    Breaks s code .tooManyDigits (tell s (shownLines shown))

/-- What a line leads to: it is answered, and the dialogue stays on its host, or the dialogue breaks
off. -/
inductive LeadsTo (s : Session) (code : String) : Turn → Prop where
  /-- the next line -/
  | next {s' : Session} (hanswer : Answered s code s') (hhost : s'.host = s.host) :
    LeadsTo s code (.next s')
  /-- the end of the dialogue -/
  | broken {fault : Fault} {s' : Session} (hbreaks : Breaks s code fault s') :
    LeadsTo s code (.broken fault s')

variable {s s' : Session} {code : String}

/-- A line that fails with a problem that is to be told. -/
theorem leadsTo_complain {p : Problem} (hfails : Fails s code p s') (hp : p.Told s.host.files)
    (hhost : s'.host = s.host) : LeadsTo s code (complain s' p) := by
  rw [complain]
  cases hreport : dialogueReport p with
  | ok text => exact .next (.failed hfails hreport) hhost
  | error fault =>
    obtain ⟨rfl, hfault⟩ := escapes_of_reportWith hp hreport
    exact .broken (.failed hfails hfault)

theorem told_runLine {p : Problem} (h : runLine s code = (.error p, s')) :
    p.Told s.host.files := by
  rw [runLine] at h
  split at h
  · exact Session.told_runSource h
  · cases h
    exact .stackFull

theorem host_runLine {r : Except Problem Value} (h : runLine s code = (r, s')) :
    s'.host = s.host := by
  rw [runLine] at h
  split at h
  · exact Session.host_runSource h
  · cases h
    rfl

theorem leadsTo_value {v : Value} (hcode : IsProgram code) (hrun : runLine s code = (.ok v, s'))
    (hv : v ≠ .none) : LeadsTo s code (tellText s' (v.text?.map fun t => "=> " ++ t ++ "\n")) := by
  have hhost := host_runLine hrun
  cases htext : v.text? with
  | some text => exact .next (.value hcode hrun hv htext) hhost
  | none => exact .broken (.value hcode hrun htext)

theorem leadsTo_programLine (hcode : IsProgram code) : LeadsTo s code (programLine s code) := by
  rw [programLine]
  split
  next p s' hrun =>
    exact leadsTo_complain (.program hcode hrun) (told_runLine hrun) (host_runLine hrun)
  next s' hrun => exact .next (.noValue hcode hrun) (host_runLine hrun)
  next v s' hv hrun => exact leadsTo_value hcode hrun hv

theorem leadsTo_parseCommand {source : String} (hcode : code = outlineCommand ++ source) :
    LeadsTo s code (parseCommand s source) := by
  rw [parseCommand]
  split
  next hreads =>
    have hasks : AsksOutline s code source := ⟨hcode, hreads⟩
    split
    next p hparse => exact leadsTo_complain (.expression hasks hparse) (.parseExpression hparse) rfl
    next n hparse =>
      split
      next hroom =>
        cases htext : n.outlineText? 0 with
        | some text => exact .next (.outline hasks hparse hroom htext) rfl
        | none => exact .broken (.outline hasks hparse hroom htext)
      next hroom => exact .broken (.unoutlined hasks hparse (Bool.eq_false_iff.mpr hroom))
  next hreads => exact .broken (.unread hcode (Bool.eq_false_iff.mpr hreads))

theorem tell_tell (s : Session) (text text' : String) :
    tell (tell s text) text' = tell s (text ++ text') := by
  simp only [tell, String.append_assoc]

/-- The bindings that are left to show, behind those that are shown. -/
theorem leadsTo_listBindings (hcode : trimmed code = ":env") (hne : s.bindings ≠ [])
    {before after : Bindings} {shown : List (String × String)}
    (hbound : s.bindings = before ++ after) (hshown : List.Forall₂ Shown before shown) :
    LeadsTo s code (listBindings shorten after (tell s (shownLines shown))) := by
  induction after generalizing before shown with
  | nil =>
    rw [List.append_nil] at hbound
    exact .next (.bound hcode hne (hbound ▸ hshown)) rfl
  | cons b after ih =>
    obtain ⟨name, v⟩ := b
    rw [listBindings]
    cases htext : v.text? with
    | some text =>
      have hlines : shownLines (shown ++ [(name, text)]) =
          shownLines shown ++ ("  " ++ name ++ " = " ++ shorten text ++ "\n") := by
        simp [shownLines]
      dsimp only
      rw [tell_tell, ← hlines]
      have hsnoc : List.Forall₂ Shown (before ++ [(name, v)]) (shown ++ [(name, text)]) :=
        List.rel_append hshown (.cons ⟨rfl, htext⟩ .nil)
      exact ih (hbound.trans (List.append_cons before (name, v) after)) hsnoc
    | none => exact .broken (.bound hcode hbound hshown htext)

theorem leadsTo_envCommand (hcode : trimmed code = ":env") : LeadsTo s code (envCommand s) := by
  rw [envCommand]
  split
  next hempty => exact .next (.unbound hcode (List.isEmpty_iff.mp hempty)) rfl
  next hempty =>
    have hnone : tell s (shownLines []) = s := by
      rw [shownLines, tell, List.map_nil, String.join_nil, String.append_empty]
    have hleads := leadsTo_listBindings hcode (mt List.isEmpty_iff.mpr hempty)
      (List.nil_append s.bindings).symm .nil
    rwa [hnone] at hleads

theorem leadsTo_ite {c : Prop} [Decidable c] {turn turn' : Turn} (h : c → LeadsTo s code turn)
    (h' : ¬c → LeadsTo s code turn') : LeadsTo s code (if c then turn else turn') := by
  split
  next hc => exact h hc
  next hc => exact h' hc

theorem eq_outlineCommand_append (h : outlineCommand.toList.isPrefixOf code.toList = true) :
    code = outlineCommand ++ String.ofList (code.toList.drop outlineCommand.length) := by
  obtain ⟨source, hsource⟩ := List.isPrefixOf_iff_prefix.mp h
  rw [← String.toList_inj, String.toList_append, String.toList_ofList, ← hsource,
    ← String.length_toList, List.drop_left]

/-- What a line does that does not ask for the end. -/
theorem leadsTo_line (hcode : trimmed code ≠ "exit") : LeadsTo s code (line s code) := by
  unfold line
  dsimp only
  rw [if_neg hcode]
  refine leadsTo_ite (fun hblank => .next (.blank hblank) rfl) fun hblank => ?_
  refine leadsTo_ite (fun houtline => leadsTo_parseCommand (eq_outlineCommand_append houtline))
    fun houtline => ?_
  refine leadsTo_ite leadsTo_envCommand fun henv => ?_
  refine leadsTo_ite (fun hreset => .next (.reset hreset) rfl) fun hreset => ?_
  refine leadsTo_ite (fun hhelp => .next (.help hhelp) rfl) fun hhelp => ?_
  refine leadsTo_programLine ⟨?_, Bool.eq_false_iff.mpr houtline⟩
  simp [hcode, hblank, henv, hreset, hhelp]

/-! ### Dialogues -/

/-- The lines are answered one after the other, each in the session that the one before has left. -/
inductive Answers : Session → List String → Session → Prop where
  /-- no line -/
  | nil (s : Session) : Answers s [] s
  /-- a line that leads on, and further lines -/
  | cons {s s' s'' : Session} {code : String} {rest : List String}
    (hline : line (tell s prompt) code = .next s') (hanswer : Answered (tell s prompt) code s')
    (hrest : Answers s' rest s'') : Answers s (code :: rest) s''

/-- How a dialogue from the session on ends. -/
inductive Ends (s : Session) (lines : List String) : Turn → Prop where
  /-- all lines up to one that asks for the end are answered -/
  | left {before after : List String} {code : String} {s' : Session}
    (hlines : lines = before ++ code :: after) (hanswers : Answers s before s')
    (hcode : trimmed code = "exit") : Ends s lines (.left (tell s' prompt))
  /-- all lines are answered -/
  | ended {s' : Session} (hanswers : Answers s lines s')
    (hcode : ∀ code ∈ lines, trimmed code ≠ "exit") :
    Ends s lines (.left (tell (tell s' prompt) farewell))
  /-- all lines are answered up to one at which the dialogue breaks off -/
  | broken {before after : List String} {code : String} {s' s'' : Session} {fault : Fault}
    (hlines : lines = before ++ code :: after) (hanswers : Answers s before s')
    (hhost : s'.host = s.host) (hbreaks : Breaks (tell s' prompt) code fault s'') :
    Ends s lines (.broken fault s'')

/-- A dialogue goes on from line to line, with what the lines before have bound. -/
theorem ends_run (lines : List String) (s : Session) : Ends s lines (run lines s) := by
  induction lines generalizing s with
  | nil => exact .ended (.nil s) nofun
  | cons code lines ih =>
    rw [run]
    by_cases hcode : trimmed code = "exit"
    · have hleft : line (tell s prompt) code = .left (tell s prompt) := by
        unfold line
        dsimp only
        rw [if_pos hcode]
      rw [hleft]
      exact .left (List.nil_append _).symm (.nil s) hcode
    · have hleads := leadsTo_line (s := tell s prompt) hcode
      generalize hline : line (tell s prompt) code = turn at hleads
      cases hleads with
      | broken hbreaks => exact .broken (List.nil_append _).symm (.nil s) rfl hbreaks
      | @next s' hanswer hhost =>
        have hcons {before : List String} {s'' : Session} (h : Answers s' before s'') :
            Answers s (code :: before) s'' := .cons hline hanswer h
        have hrest := ih s'
        dsimp only
        generalize run lines s' = turn at hrest
        cases hrest with
        | left hlines hanswers hexit =>
          exact .left (congrArg (code :: ·) hlines) (hcons hanswers) hexit
        | ended hanswers hnone =>
          exact .ended (hcons hanswers) (List.forall_mem_cons.mpr ⟨hcode, hnone⟩)
        | broken hlines hanswers hhost' hbreaks =>
          exact .broken (congrArg (code :: ·) hlines) (hcons hanswers) (hhost'.trans hhost) hbreaks

end Kestrel.CommandLine.Console
