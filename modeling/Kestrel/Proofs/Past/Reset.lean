import Kestrel.Proofs.Past.Carried
import Kestrel.Proofs.Scopes.Course

/-!
# Sessions that were reset

A session that was reset answers every request as a session does in which nothing has happened, whatever
it was asked for before. Nothing that an answer shows depends on what was printed or traced earlier.

A reset forgets the scopes. It makes no difference if they are kept instead: a lasting session holds all
scopes it ever made, and a reset only gives it another global scope. Functions of earlier times stay where
they are, with the scopes they were declared in, and later scopes get other numbers. Still its answers
are those of a session that forgets.

* `Reply`, `Session.replies` — what is seen of the answers to requests;
* `LastingSession` — a session that keeps all its scopes;
* `LastingSession.Mirrors` — a lasting session does the same as a session, after some past;
* `replies_after_reset` — after a reset a session cannot be told from a new one.
-/

namespace Kestrel

/-- What is seen of the answer to a request. -/
structure Reply where
  /-- the text of the value, if it has one, or the problem -/
  outcome : Except Problem (Option String)
  /-- the text that was printed meanwhile -/
  output : String
  /-- the names in the global scope with the texts of their values, in order -/
  bindings : List (String × Option String)
  /-- the text that was traced meanwhile -/
  trace : String

/-- What a text has grown by. -/
def addedText (before after : String) : String :=
  String.ofList (after.toList.drop before.toList.length)

theorem addedText_append (text before after : String) :
    addedText (text ++ before) (text ++ after) = addedText before after := by
  simp [addedText, ← List.drop_drop]

/-- The names with the texts of their values. -/
def Bindings.texts (bs : Bindings) : List (String × Option String) :=
  bs.map fun b => (b.1, b.2.text?)

theorem Bindings.texts_shift (k : Nat) (bs : Bindings) : (bs.shift k).texts = bs.texts := by
  rw [texts, texts, shift, List.map_map]
  congr 1
  funext b
  exact congrArg (Prod.mk b.1) (Value.text?_shift k b.2)

/-- What is seen when an answer changes the world. -/
def Reply.of (before after : World) (home : ScopeId) (outcome : Except Problem Value) : Reply where
  outcome := outcome.map Value.text?
  output := addedText before.output after.output
  bindings := (after.store.bindings home).texts
  trace := addedText before.trace after.trace

namespace Session

/-- What is seen of the answer to a request, and the session after it. -/
def reply (s : Session) (request : Request) : Reply × Session :=
  let (outcome, s') := s.answer request
  (.of s.world s'.world globalScope outcome, s')

/-- What is seen of the answers to some requests, the first one first. -/
def replies (s : Session) : List Request → List Reply
  | [] => []
  | request :: requests => (s.reply request).1 :: (s.reply request).2.replies requests

/-- The session after some requests. -/
def after (s : Session) (requests : List Request) : Session :=
  requests.foldl (fun s request => (s.answer request).2) s

end Session

/-! ### Sessions that keep all their scopes -/

/-- The run of a program in some scope, with the line that tells how many statements were read. -/
def runIn (host : Host) (home : ScopeId) (filename : String) (statements : List Node) :
    Eval Value := do
  Session.noteParsed host filename statements
  evalProgram host home statements

/-- What a request asks for, once the global scope is known, if it can be read; a reset asks for
nothing. -/
def Request.task (host : Host) : Request → Except Problem (ScopeId → Eval Value)
  | .source text filename =>
    (parseProgram text filename).map fun statements home => runIn host home filename statements
  | .file path =>
    (parseFile host path).map fun statements home => runIn host home path statements
  | .expression text => (parseExpression text "<input>").map fun e home => e.eval host home
  | .reset => .ok fun _ => pure .none

/-- A session that keeps all its scopes. -/
structure LastingSession where
  /-- what it runs on -/
  host : Host
  /-- what it has done so far, in all its scopes -/
  world : World
  /-- the scope that is the global one at present -/
  home : ScopeId

namespace LastingSession

/-- A lasting session in which nothing has happened. -/
def fresh (host : Host) : LastingSession := ⟨host, (Session.fresh host).world, Session.globalScope⟩

/-- The session with a new global scope. The scopes that there were are still there. -/
def reset (s : LastingSession) : LastingSession :=
  ⟨s.host, { s.world with store := s.world.store.push none [] }, s.world.store.size⟩

/-- Does a computation in a session. -/
def perform (s : LastingSession) (m : Eval Value) : Except Problem Value × LastingSession :=
  match m s.world with
  | (.ok v, w) => (.ok v, { s with world := w })
  | (.error e, w) => (.error (.failure e), { s with world := w })

/-- The value or the problem that answers a request, and the session after it. -/
def answer (s : LastingSession) : Request → Except Problem Value × LastingSession
  | .reset => (.ok .none, s.reset)
  | request =>
    match request.task s.host with
    | .error problem => (.error problem, s)
    | .ok task => s.perform (task s.home)

/-- What is seen of the answer to a request, and the session after it. -/
def reply (s : LastingSession) (request : Request) : Reply × LastingSession :=
  let (outcome, s') := s.answer request
  (.of s.world s'.world s'.home outcome, s')

/-- What is seen of the answers to some requests, the first one first. -/
def replies (s : LastingSession) : List Request → List Reply
  | [] => []
  | request :: requests => (s.reply request).1 :: (s.reply request).2.replies requests

/-- The session after some requests. -/
def after (s : LastingSession) (requests : List Request) : LastingSession :=
  requests.foldl (fun s request => (s.answer request).2) s

end LastingSession

/-- A session does what a request asks for in its global scope. -/
theorem Session.answer_eq_task (s : Session) {request : Request} (h : request ≠ .reset) :
    s.answer request =
      match request.task s.host with
      | .error problem => (.error problem, s)
      | .ok task => s.perform (task globalScope) := by
  cases request with
  | source text filename =>
    rw [answer, runSource, Request.task]
    cases parseProgram text filename <;> rfl
  | file path =>
    rw [answer, runFile, Request.task]
    cases parseFile s.host path <;> rfl
  | expression text =>
    rw [answer, evalExpression, Request.task]
    cases parseExpression text "<input>" <;> rfl
  | reset => exact absurd rfl h

theorem LastingSession.answer_eq_task (l : LastingSession) {request : Request}
    (h : request ≠ .reset) :
    l.answer request =
      match request.task l.host with
      | .error problem => (.error problem, l)
      | .ok task => l.perform (task l.home) := by
  cases request with
  | reset => exact absurd rfl h
  | _ => rfl

/-- A session stays on its host. -/
theorem Session.host_after (s : Session) (requests : List Request) :
    (s.after requests).host = s.host := by
  have host_answer (s : Session) (request : Request) : (s.answer request).2.host = s.host := by
    by_cases h : request = .reset
    · rw [h]
      rfl
    · rw [s.answer_eq_task h]
      split
      · rfl
      · rw [perform]
        split <;> rfl
  induction requests generalizing s with
  | nil => rfl
  | cons request requests ih => exact (ih _).trans (host_answer s request)

theorem LastingSession.host_after (l : LastingSession) (requests : List Request) :
    (l.after requests).host = l.host := by
  have host_answer (l : LastingSession) (request : Request) : (l.answer request).2.host = l.host := by
    by_cases h : request = .reset
    · rw [h]
      rfl
    · rw [l.answer_eq_task h]
      split
      · rfl
      · rw [perform]
        split <;> rfl
  induction requests generalizing l with
  | nil => rfl
  | cons request requests ih => exact (ih _).trans (host_answer l request)

/-- What a request asks for is the same after a past. -/
theorem Request.carried_task {host : Host} {request : Request} {task : ScopeId → Eval Value}
    (h : request.task host = .ok task) (past : World) (home : ScopeId) :
    (task home).Carried past (Value.shift past.store.size) (task (home + past.store.size)) := by
  have hrun (filename : String) (statements : List Node) :
      (runIn host home filename statements).Carried past (Value.shift past.store.size)
        (runIn host (home + past.store.size) filename statements) :=
    .bind (.traceLine host fun _ => rfl) fun _ => carried_evalProgram past host home statements
  cases request with
  | source text filename =>
    rw [Request.task] at h
    cases hread : parseProgram text filename <;> rw [hread] at h <;> cases h
    exact hrun filename _
  | file path =>
    rw [Request.task] at h
    cases hread : parseFile host path <;> rw [hread] at h <;> cases h
    exact hrun path _
  | expression text =>
    rw [Request.task] at h
    cases hread : parseExpression text "<input>" <;> rw [hread] at h <;> cases h
    exact Node.carried_evalWithin past host host.calls home _
  | reset =>
    cases h
    exact .pure _ _

/-! ### The same answers -/

/-- A session after a past, as a lasting session. -/
def Session.lasting (past : World) (s : Session) : LastingSession :=
  ⟨s.host, past.after s.world, globalScope + past.store.size⟩

/-- After a past that holds no scopes but those of a new session on top of it, a reset leads to where a
new session stands. -/
theorem LastingSession.reset_eq_lasting (l : LastingSession) :
    l.reset = (Session.fresh l.host).lasting l.world := by
  have hpush := l.world.store.push_under Store.empty none []
  rw [Store.under_empty] at hpush
  simp only [reset, Session.lasting, Session.fresh, World.after, Session.globalScope, Nat.zero_add,
    String.append_empty]
  congr 2

/-- A session answers after a past as it does from the beginning. The past may become longer by the
scopes that a reset has forgotten. -/
theorem Session.answer_lasting (past : World) (s : Session) (request : Request) :
    ∃ past' : World, past'.output = past.output ∧ past'.trace = past.trace ∧
      (s.lasting past).answer request =
        ((s.answer request).1.map (Value.shift past'.store.size),
          (s.answer request).2.lasting past') := by
  by_cases hreset : request = .reset
  · subst hreset
    -- what was forgotten joins the past
    refine ⟨⟨past.store.under s.world.store, past.output, past.trace⟩, rfl, rfl, ?_⟩
    rw [LastingSession.answer, LastingSession.reset_eq_lasting]
    simp [lasting, fresh, answer, reset, World.after, Except.map, Value.shift]
  · refine ⟨past, rfl, rfl, ?_⟩
    rw [s.answer_eq_task hreset, LastingSession.answer_eq_task _ hreset, Session.lasting]
    cases htask : request.task s.host with
    | error problem => rfl
    | ok task =>
      have hcarried := Request.carried_task htask past globalScope s.world
      simp only [LastingSession.perform, Session.perform, hcarried]
      rcases task globalScope s.world with ⟨e | v, w⟩ <;> rfl

/-- What is seen of an answer is the same after a past. The past may become longer. -/
theorem Reply.of_after {past past' : World} (houtput : past'.output = past.output)
    (htrace : past'.trace = past.trace) (before after : World) (home : ScopeId)
    (outcome : Except Problem Value) :
    Reply.of (past.after before) (past'.after after) (home + past'.store.size)
        (outcome.map (Value.shift past'.store.size)) =
      Reply.of before after home outcome := by
  have htext : (outcome.map (Value.shift past'.store.size)).map Value.text? =
      outcome.map Value.text? := by
    cases outcome with
    | error problem => rfl
    | ok v => exact congrArg Except.ok (Value.text?_shift _ v)
  simp only [Reply.of, World.after, houtput, htrace, addedText_append, Store.bindings_under,
    Bindings.texts_shift, htext]

/-- What is seen of the answers to requests is the same after a past. -/
theorem Session.replies_lasting (past : World) (s : Session) (requests : List Request) :
    (s.lasting past).replies requests = s.replies requests := by
  induction requests generalizing past s with
  | nil => rfl
  | cons request requests ih =>
    obtain ⟨past', houtput, htrace, hanswer⟩ := s.answer_lasting past request
    rw [LastingSession.replies, Session.replies, LastingSession.reply, hanswer]
    dsimp only
    rw [ih past']
    congr 1
    exact Reply.of_after houtput htrace _ _ _ _

/-- A session that was reset answers all requests like a session in which nothing has happened. -/
theorem Session.replies_reset (s : Session) (requests : List Request) :
    s.reset.replies requests = (fresh s.host).replies requests := by
  -- both are the same session, after different pasts that hold no scopes
  have hsame : s.reset.lasting ⟨Store.empty, "", ""⟩ =
      (fresh s.host).lasting ⟨Store.empty, s.world.output, s.world.trace⟩ := by
    simp [lasting, reset, fresh, World.after]
  rw [← replies_lasting ⟨Store.empty, "", ""⟩, hsame, replies_lasting]

/-- A lasting session answers all requests like a session that forgets. -/
theorem LastingSession.replies_fresh (host : Host) (requests : List Request) :
    (fresh host).replies requests = (Session.fresh host).replies requests := by
  have hfresh : fresh host = (Session.fresh host).lasting ⟨Store.empty, "", ""⟩ := by
    rw [← reset_eq_lasting ⟨host, ⟨Store.empty, "", ""⟩, Session.globalScope⟩]
    rfl
  rw [hfresh, Session.replies_lasting]

/-- After a reset a session cannot be told from one in which nothing has happened. Whatever it was asked
for before, and whether that succeeded or failed, every later request is answered by the same value as
text or the same problem, prints the same, traces the same, and leaves the same names bound to values
with the same texts.

This does not depend on the scopes being forgotten. A lasting session keeps all its scopes, with the
functions that were declared in them, and its later scopes have other numbers than those of a new one.
It answers the same after a reset too, and in fact it answers all requests as a session does that forgets
its scopes. -/
theorem replies_after_reset (host : Host) (history continuation : List Request) :
    ((Session.fresh host).after history).reset.replies continuation =
        (Session.fresh host).replies continuation ∧
      ((LastingSession.fresh host).after history).reset.replies continuation =
        (LastingSession.fresh host).replies continuation ∧
      (LastingSession.fresh host).replies (history ++ .reset :: continuation) =
        (Session.fresh host).replies (history ++ .reset :: continuation) := by
  refine ⟨?_, ?_, LastingSession.replies_fresh host _⟩
  · rw [Session.replies_reset, Session.host_after]
    rfl
  · rw [LastingSession.reset_eq_lasting, Session.replies_lasting, LastingSession.host_after,
      LastingSession.replies_fresh]
    rfl

end Kestrel
