import Kestrel.Proofs.Joining.Program
import Kestrel.Proofs.Tracing.Muted
import Kestrel.Session

/-!
# One script or two texts

A session that runs two texts one after the other does what it does with a script in which the second
one stands below the first, if the first one ends with a semicolon or a closing brace. Only the trace
tells them apart, since it says how many statements were read at a time.

* `Node.evalWithin_block_append` — the statements of a block in two parts;
* `Session.Agrees` — sessions that differ in their traces only;
* `runSource_join` — the script and the two texts.
-/

namespace Kestrel

/-- Statements are run one after another. -/
theorem Node.evalBlock_append (host : Host) (run : Runner) (scope : ScopeId) (ms ns : List Node)
    (last : Value) :
    Node.evalBlock host run scope (ms ++ ns) last =
      Node.evalBlock host run scope ms last >>= Node.evalBlock host run scope ns := by
  induction ms generalizing last with
  | nil => rfl
  | cons m ms ih =>
    rw [List.cons_append, Node.evalBlock, Node.evalBlock]
    simp only [Eval.bind_assoc, ih]

/-- The value before the first statement only counts where there is none. -/
theorem Node.evalBlock_eq (host : Host) (run : Runner) (scope : ScopeId) (ns : List Node)
    (last : Value) :
    Node.evalBlock host run scope ns last =
      if ns = [] then pure last else Node.evalBlock host run scope ns .none := by
  cases ns with
  | nil => rfl
  | cons n ns => rw [if_neg (List.cons_ne_nil n ns), Node.evalBlock, Node.evalBlock]

theorem Node.evalWithin_block_append (host : Host) (calls : Nat) (scope : ScopeId)
    (ms ns : List Node) :
    (Node.block (ms ++ ns)).evalWithin host calls scope =
      ((Node.block ms).evalWithin host calls scope >>= fun last =>
        if ns = [] then pure last else (Node.block ns).evalWithin host calls scope) := by
  cases calls with
  | zero | succ =>
    simp only [Node.evalWithin, Node.evalWith]
    rw [Node.evalBlock_append]
    exact congrArg _ (funext fun last => Node.evalBlock_eq host _ scope ns last)

namespace Session

/-- Sessions that differ in their traces only. -/
structure Agrees (s s' : Session) : Prop where
  /-- they run on the same host -/
  host : s'.host = s.host
  /-- all scopes are the same -/
  store : s'.world.store = s.world.store
  /-- the same was printed -/
  output : s'.world.output = s.world.output

theorem Agrees.common {s s₁ s₂ : Session} (h₁ : s.Agrees s₁) (h₂ : s.Agrees s₂) : s₁.Agrees s₂ where
  host := h₂.host.trans h₁.host.symm
  store := h₂.store.trans h₁.store.symm
  output := h₂.output.trans h₁.output.symm

theorem Agrees.eq_withTrace {s s' : Session} (h : s.Agrees s') :
    s' = ⟨s.host, s.world.withTrace s'.world.trace⟩ := by
  obtain ⟨host, store, output, trace⟩ := s'
  obtain ⟨rfl, rfl, rfl⟩ := h
  rfl

/-- The statements of a program, run without a trace. -/
def untraced (host : Host) (statements : List Node) : Eval Value :=
  (Node.block statements).evalWithin host.untraced host.calls globalScope

theorem untraced_nil (host : Host) : untraced host [] = pure .none := by
  rw [untraced]
  cases host.calls <;> rfl

theorem untraced_append (host : Host) (ms ns : List Node) :
    untraced host (ms ++ ns) =
      (untraced host ms >>= fun last => if ns = [] then pure last else untraced host ns) :=
  Node.evalWithin_block_append host.untraced host.calls globalScope ms ns

/-- A step of a session on the given host ends as a run without a trace does, but for the trace. -/
structure Shows (host : Host) (q : Except Failure Value × World)
    (r : Except Problem Value × Session) : Prop where
  /-- the same value, or the same failure -/
  outcome : r.1 = q.1.mapError .failure
  /-- the same is left behind -/
  agrees : Agrees ⟨host, q.2⟩ r.2

/-- A session runs a program as any session does that agrees with it, and that as without a trace. -/
theorem Agrees.runParsed {s s' : Session} (h : s.Agrees s') (filename : String)
    (statements : List Node) :
    Shows s.host (untraced s.host statements s.world) (s'.runParsed filename (.ok statements)) := by
  rw [h.eq_withTrace]
  have hmuted : Eval.Muted (fun _ => False)
      (do
        noteParsed s.host filename statements
        evalProgram s.host globalScope statements)
      (untraced s.host statements) :=
    .bind (.traceLine_none s.host _) fun _ => .bind (.traceLine_none s.host _) fun _ =>
      Node.muted_evalWithin _ s.host s.host.calls globalScope (.block statements)
  obtain ⟨hsame, -⟩ := hmuted.run (s.world.withTrace s'.world.trace) s.world.trace
  rw [World.withTrace_withTrace, World.withTrace_self] at hsame
  rw [Session.runParsed, perform, hsame]
  split
  next v w hrun => rw [hrun]; exact ⟨rfl, rfl, rfl, rfl⟩
  next e w hrun => rw [hrun]; exact ⟨rfl, rfl, rfl, rfl⟩

end Session

/-- A script and two texts in a row do the same.

If two programs can be read, and the first one ends with a semicolon or a closing brace that is not in a
comment, then the second one written below the first can be read with it, and the statements are those of
the first and then those of the second. In any session, whatever was done before, running the two together
leaves the same scopes and prints the same as running the first and then, if it has not failed, the
second. It fails in the same way if one of them fails, and otherwise has the value of the second one, or
of the first one if the second has no statements. -/
theorem runSource_join {a b filename : String} {as bs : List Node}
    (ha : parseProgram a filename = .ok as) (hb : parseProgram b filename = .ok bs)
    (hsealed : Reader.Sealed a.toList) :
    parseProgram (a ++ "\n" ++ b) filename = .ok (as ++ bs) ∧
      ∀ s : Session,
        let joined := s.runSource (a ++ "\n" ++ b) filename
        let first := s.runSource a filename
        let second := first.2.runSource b filename
        (∀ problem, first.1 = .error problem →
            joined.1 = .error problem ∧ first.2.Agrees joined.2) ∧
          (∀ v problem, first.1 = .ok v → second.1 = .error problem →
            joined.1 = .error problem ∧ second.2.Agrees joined.2) ∧
          ∀ v v', first.1 = .ok v → second.1 = .ok v' →
            joined.1 = .ok (if bs = [] then v else v') ∧ second.2.Agrees joined.2 := by
  have hjoined := parseProgram_append ha hb hsealed
  refine ⟨hjoined, fun s => ?_⟩
  simp only [Session.runSource, ha, hb, hjoined]
  -- the runs of the script and of the texts are compared with runs without a trace
  have hself : s.Agrees s := ⟨rfl, rfl, rfl⟩
  have hall := hself.runParsed filename (as ++ bs)
  have hfirst := hself.runParsed filename as
  rw [Session.untraced_append, Eval.bind_run] at hall
  generalize s.runParsed filename (.ok (as ++ bs)) = joined at hall ⊢
  generalize s.runParsed filename (.ok as) = first at hfirst ⊢
  generalize Session.untraced s.host as s.world = q at hall hfirst
  obtain ⟨e | v, w⟩ := q
  · -- the first text fails, and so does the script at the same place
    have herror : first.1 = .error (.failure e) := hfirst.outcome
    rw [herror]
    refine ⟨?_, nofun, nofun⟩
    rintro problem ⟨⟩
    exact ⟨hall.outcome, hfirst.agrees.common hall.agrees⟩
  · have hok : first.1 = .ok v := hfirst.outcome
    have hsecond := hfirst.agrees.runParsed filename bs
    generalize first.2.runParsed filename (.ok bs) = second at hsecond ⊢
    dsimp only at hall hsecond ⊢
    rw [hok]
    refine ⟨nofun, ?_, ?_⟩
    · rintro _ problem ⟨⟩ hproblem
      have hbs : bs ≠ [] := by
        rintro rfl
        rw [Session.untraced_nil] at hsecond
        have hnone : second.1 = .ok .none := hsecond.outcome
        rw [hproblem] at hnone
        cases hnone
      rw [if_neg hbs] at hall
      exact ⟨hall.outcome.trans (hsecond.outcome.symm.trans hproblem),
        hsecond.agrees.common hall.agrees⟩
    · rintro _ v' ⟨⟩ hv'
      by_cases hbs : bs = []
      · subst hbs
        rw [Session.untraced_nil] at hsecond
        exact ⟨hall.outcome, hsecond.agrees.common hall.agrees⟩
      · rw [if_neg hbs] at hall ⊢
        exact ⟨hall.outcome.trans (hsecond.outcome.symm.trans hv'),
          hsecond.agrees.common hall.agrees⟩

/-- A condition without an `else`, and a text that does not go on with one. -/
theorem runSource_join_condition :
    let s := Session.fresh ⟨Files.empty, false, .ofCalls 1000⟩
    let first := s.runSource "if (true) \x7b x = None; \x7d" ""
    let joined := s.runSource ("if (true) \x7b x = None; \x7d" ++ "\n" ++ "!false") ""
    Reader.Sealed "if (true) \x7b x = None; \x7d".toList ∧
      parseProgram ("if (true) \x7b x = None; \x7d" ++ "\n" ++ "!false") "" =
          .ok [.ifElse (.bool true) (.block [.assign "x" .none]) (.block []),
            .unary .not (.bool false)] ∧
        first.1 = .ok .none ∧ (first.2.runSource "!false" "").1 = .ok (.bool true) ∧
          joined.1 = .ok (.bool true) := by
  have ha : parseProgram "if (true) \x7b x = None; \x7d" "" =
      .ok [.ifElse (.bool true) (.block [.assign "x" .none]) (.block [])] := rfl
  have hb : parseProgram "!false" "" = .ok [.unary .not (.bool false)] := rfl
  have hsealed : Reader.Sealed "if (true) \x7b x = None; \x7d".toList := by decide
  obtain ⟨hjoined, hruns⟩ := runSource_join ha hb hsealed
  obtain ⟨-, -, hvalue⟩ := hruns (Session.fresh ⟨Files.empty, false, .ofCalls 1000⟩)
  exact ⟨hsealed, hjoined, rfl, rfl, (hvalue .none (.bool true) rfl rfl).1⟩

end Kestrel
