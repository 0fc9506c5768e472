import Kestrel.Proofs.Scopes.Keeps

/-!
# The scopes of a session

A session answers requests one after the other, and each answer goes on from the scopes that the
answers before it left, whether they succeeded or failed. So the records of the answers make one
history, which starts anew when the session is reset.

* `Request`, `Session.answer` — what a session can be asked for, and its answer;
* `Session.record` — what an answer does to the scopes, in order;
* `Course` — a session with the programs it was given and its history, both since the last reset;
* `Course.Sound` — the history is orderly and leads to the scopes of the session;
* `Course.wellScoped_next` — how the scopes hang together at every moment of a session.
-/

namespace Kestrel

/-- What a session can be asked for. -/
inductive Request where
  /-- to run a program from its text -/
  | source (text filename : String)
  /-- to run a program from a file -/
  | file (path : String)
  /-- the value of an expression -/
  | expression (text : String)
  /-- to forget all that is bound -/
  | reset

namespace Session

/-- The value or the problem that answers a request, and the session after it. -/
def answer (s : Session) : Request → Except Problem Value × Session
  | .source text filename => s.runSource text filename
  | .file path => s.runFile path
  | .expression text => s.evalExpression text
  | .reset => (.ok .none, s.reset)

/-- The program that a request gives, unless reading it fails. -/
def program? (s : Session) : Request → Option (List Node)
  | .source text filename => (parseProgram text filename).toOption
  | .file path => (parseFile s.host path).toOption
  | .expression _ | .reset => none

/-- The run of a program that was read, with a record. -/
def recordProgram (host : Host) (filename : String) (statements : List Node) : Recorded Value := do
  Recorded.silent (noteParsed host filename statements)
  Recorded.silent (Eval.traceLine host fun _ =>
    "[run] " ++ toString statements.length ++ " top-level statements")
  (Node.block statements).recordWithin host host.calls globalScope

theorem plain_recordProgram (host : Host) (filename : String) (statements : List Node) :
    (recordProgram host filename statements).plain = (do
      noteParsed host filename statements
      evalProgram host globalScope statements) := by
  simp [recordProgram, evalProgram, Node.plain_recordWithin, Node.eval]

/-- What the run of a program does to the scopes. -/
def recordParsed (s : Session) (filename : String) (program : Except Problem (List Node)) :
    List Event :=
  match program with
  | .error _ => []
  | .ok statements => (recordProgram s.host filename statements s.world).2

/-- What the answer to a request does to the scopes; what a reset does is left out. -/
def record (s : Session) : Request → List Event
  | .source text filename => s.recordParsed filename (parseProgram text filename)
  | .file path => s.recordParsed path (parseFile s.host path)
  | .expression text =>
    match parseExpression text "<input>" with
    | .error _ => []
    | .ok e => (e.recordWithin s.host s.host.calls globalScope s.world).2
  | .reset => []

end Session

/-- A session with its past since the last reset. -/
structure Course where
  /-- the session -/
  session : Session
  /-- the programs it was given -/
  programs : List (List Node)
  /-- what happened to its scopes -/
  history : List Event

namespace Course

/-- A session in which nothing has happened. -/
def start (host : Host) : Course := ⟨Session.fresh host, [], []⟩

/-- The session after one more request. -/
def next (c : Course) (request : Request) : Course :=
  match request with
  | .reset => ⟨c.session.reset, [], []⟩
  | request =>
    ⟨(c.session.answer request).2, c.programs ++ (c.session.program? request).toList,
      c.history ++ c.session.record request⟩

/-- The session after some requests, the first one first. -/
def after (host : Host) (requests : List Request) : Course := requests.foldl next (start host)

/-- The node is a declaration in some program that the session was given. -/
def Ran (c : Course) (d : Node) : Prop := ∃ p ∈ c.programs, d ∈ (Node.block p).declarations

/-- The history is orderly and leads to the scopes of the session. -/
structure Sound (c : Course) : Prop where
  /-- the history is orderly -/
  orderly : Orderly c.Ran c.history
  /-- it leads to the scopes of the session -/
  store : c.session.world.store = replay c.history

theorem inherited_ran (c : Course) : Inherited c.Ran := by
  rintro n ⟨p, hp, hn⟩ d hd
  exact ⟨p, hp, Node.mem_declarations_trans hn hd⟩

/-- The session goes on soundly: its past is sound after the answer, and the value is known. -/
def Continues (c : Course) (answer : Except Problem Value) : Prop :=
  c.Sound ∧ ∀ v, answer = .ok v → Known c.history v

/-- What a session does goes on soundly if it keeps histories orderly, given the programs up to now
and those that are new. -/
theorem Sound.perform {c : Course} (h : c.Sound) (new : List (List Node)) {m : Recorded Value}
    (hm : ∀ ran, Inherited ran → (∀ p ∈ new, (Node.block p).Covered ran) →
      Ready ran Session.globalScope c.history → m.Keeps ran c.history Known) :
    Continues ⟨(c.session.perform m.plain).2, c.programs ++ new,
      c.history ++ (m c.session.world).2⟩ (c.session.perform m.plain).1 := by
  let ran : Node → Prop := fun d => ∃ p ∈ c.programs ++ new, d ∈ (Node.block p).declarations
  have hinherited : Inherited ran := inherited_ran ⟨c.session, c.programs ++ new, c.history⟩
  have hold : ∀ d, c.Ran d → ran d := by
    rintro d ⟨p, hp, hd⟩
    exact ⟨p, List.mem_append_left _ hp, hd⟩
  have hnew : ∀ p ∈ new, (Node.block p).Covered ran :=
    fun p hp d hd => ⟨p, List.mem_append_right _ hp, hd⟩
  -- the events before are allowed by the old programs, the events now may need the new ones
  have hkeeps := hm ran hinherited hnew ⟨h.orderly.imp hold, size_replay_pos _⟩
  obtain ⟨hstore, horderly, hknown⟩ := hkeeps c.session.world h.store
  rw [Session.perform, Recorded.plain]
  rcases hw : m c.session.world with ⟨⟨e | v, w⟩, events⟩
  · rw [hw] at hstore horderly
    refine ⟨⟨horderly, hstore⟩, ?_⟩
    rintro _ ⟨⟩
  · rw [hw] at hstore horderly hknown
    refine ⟨⟨horderly, hstore⟩, ?_⟩
    rintro _ ⟨⟩
    exact hknown v rfl

/-- A request that is not even read changes nothing. -/
theorem Sound.unread {c : Course} (h : c.Sound) (e : Problem) :
    Continues ⟨c.session, c.programs ++ [], c.history ++ []⟩ (.error e) := by
  rw [List.append_nil, List.append_nil]
  exact ⟨h, nofun⟩

theorem Sound.runParsed {c : Course} (h : c.Sound) (filename : String)
    (program : Except Problem (List Node)) :
    Continues ⟨(c.session.runParsed filename program).2, c.programs ++ program.toOption.toList,
      c.history ++ c.session.recordParsed filename program⟩
      (c.session.runParsed filename program).1 := by
  cases program with
  | error e => exact h.unread e
  | ok statements =>
    rw [Session.runParsed, ← Session.plain_recordProgram]
    refine h.perform [statements] fun ran hran hnew hready => ?_
    refine .bind hready (.idle hready.orderly (.traceLine _ _)) fun later _ _ hready _ => ?_
    refine .bind hready (.idle hready.orderly (.traceLine _ _)) fun later _ _ hready _ => ?_
    exact Node.keeps_recordWithin hran _ _ _ _ hready (hnew _ List.mem_cons_self)

theorem Sound.evalExpression {c : Course} (h : c.Sound) (text : String) :
    Continues ⟨(c.session.evalExpression text).2, c.programs ++ [],
      c.history ++ c.session.record (.expression text)⟩ (c.session.evalExpression text).1 := by
  rw [Session.evalExpression, Session.record]
  cases hread : parseExpression text "<input>" with
  | error e => exact h.unread e
  | ok e =>
    -- an expression declares nothing, so it needs no program
    have hnone : e.declarations = [] := declaresNone_of_parseExpression hread
    simp only [Node.eval, ← Node.plain_recordWithin]
    refine h.perform [] fun ran hran _ hready => ?_
    exact Node.keeps_recordWithin hran _ _ _ _ hready (by simp [Node.Covered, hnone])

/-- A session goes on soundly with each request. -/
theorem Sound.next {c : Course} (h : c.Sound) (request : Request) :
    Continues (c.next request) (c.session.answer request).1 := by
  cases request with
  | source text filename => exact h.runParsed filename (parseProgram text filename)
  | file path => exact h.runParsed path (parseFile c.session.host path)
  | expression text => exact h.evalExpression text
  | reset =>
    refine ⟨⟨.nil, rfl⟩, ?_⟩
    rintro _ ⟨⟩
    exact known_of_closures_eq_nil rfl

/-- The past of a session is sound after any requests. -/
theorem sound_after (host : Host) (requests : List Request) : (after host requests).Sound := by
  have hrun : ∀ (c : Course), c.Sound → (requests.foldl Course.next c).Sound := by
    induction requests with
    | nil => exact fun _ h => h
    | cons request requests ih => exact fun c h => ih (c.next request) (h.next request).1
  exact hrun (start host) ⟨.nil, rfl⟩

/-- At every moment of a session the scopes hang together. Whatever a session is asked for and whether
it succeeds or fails, its history leads to its scopes, and after every part of the history, from the
last reset on:

* following parents leads from every scope to the global scope, and parents are older than their
  children;
* every function that is bound, and every function that a call has given, holds a scope that exists
  and in which a declaration of some program of the session was evaluated, with the same parameters
  and the same body;
* every scope but the global one was made by one call, lies in the scope of the called function, and
  binds all its parameters.

What holds of functions that are bound also holds of those in the value that the session answers. -/
theorem wellScoped_next (host : Host) (requests : List Request) (request : Request) :
    let c := after host requests
    let c' := c.next request
    c'.session = (c.session.answer request).2 ∧
      c'.session.world.store = replay c'.history ∧
      (∀ done, done <+: c'.history → WellScoped c'.Ran done) ∧
      ∀ v, (c.session.answer request).1 = .ok v → ∀ f ∈ v.closures, Founded c'.Ran c'.history f := by
  intro c c'
  obtain ⟨hsound, hknown⟩ := (sound_after host requests).next request
  refine ⟨?_, hsound.store, ?_, ?_⟩
  · cases request <;> rfl
  · exact fun done hdone => (hsound.orderly.of_prefix hdone).wellScoped
  · exact fun v hv f hf => hsound.orderly.founded (hknown v hv f hf)

end Course

end Kestrel
