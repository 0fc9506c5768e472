import Kestrel.Proofs.Scopes.Apart
import Kestrel.Proofs.Scopes.Declared
import Kestrel.Proofs.Scopes.History

/-!
# Evaluation keeps histories orderly

What one node adds to an orderly history leaves it orderly, and the value it gives is known. This is
shown for every kind of node, given the same of the bodies of called functions, and then for any depth
of calls. It covers evaluations that fail: what was recorded up to the failure is recorded.

* `Eval.Quiet` — a computation that leaves the scopes alone;
* `Recorded.Keeps` — a computation whose record continues a history in an orderly way;
* `Node.keeps_recordWithin` — evaluation is such a computation.
-/

namespace Kestrel

/-! ### What leaves the scopes alone -/

namespace Eval

variable {α β : Type}

/-- The computation leaves the scopes alone, and what it gives has the property. -/
def Quiet (m : Eval α) (P : α → Prop) : Prop :=
  ∀ w, (m w).2.store = w.store ∧ ∀ a, (m w).1 = .ok a → P a

namespace Quiet

variable {P : α → Prop} {Q : β → Prop}

theorem of_apart {m : Eval α} (h : m.Apart P) : m.Quiet P := by
  obtain ⟨r, out, trace, hgives, hm⟩ := h
  intro w
  rw [hm w]
  exact ⟨rfl, hgives⟩

theorem pure {a : α} (ha : P a) : Quiet (pure a) P := of_apart (.pure ha)

theorem bind {m : Eval α} {f : α → Eval β} (hm : m.Quiet P) (hf : ∀ a, P a → (f a).Quiet Q) :
    (m >>= f).Quiet Q := by
  intro w
  obtain ⟨hstore, hgives⟩ := hm w
  rw [bind_run]
  rcases hw : m w with ⟨_ | a, w'⟩
  · rw [hw] at hstore
    exact ⟨hstore, nofun⟩
  · rw [hw] at hstore hgives
    obtain ⟨hstore', hgives'⟩ := hf a (hgives a rfl) w'
    exact ⟨hstore'.trans hstore, hgives'⟩

theorem read (f : Store → α) : (read f).Quiet fun _ => True := fun _ => ⟨rfl, fun _ _ => True.intro⟩

theorem traceLine (host : Host) (line : Store → String) :
    (traceLine host line).Quiet fun _ => True := by
  intro w
  refine ⟨?_, fun _ _ => True.intro⟩
  rw [Eval.traceLine]
  split <;> rfl

theorem note (host : Host) (scope : ScopeId) (message : String) :
    (note host scope message).Quiet fun _ => True := traceLine host _

theorem segment (host : Host) (scope : ScopeId) (s : Template.Segment) :
    (segment host scope s).Quiet fun _ => True := by
  cases s with
  | text chars => exact pure True.intro
  | placeholder inner =>
    refine bind (read _) fun r _ => ?_
    rcases r with ⟨e | e⟩ | text
    · exact bind (note host scope _) fun _ _ => pure True.intro
    · exact of_apart (.fail _)
    · exact pure True.intro

theorem segments (host : Host) (scope : ScopeId) (ss : List Template.Segment) :
    (segments host scope ss).Quiet fun _ => True := by
  induction ss with
  | nil => exact pure True.intro
  | cons s ss ih =>
    exact bind (segment host scope s) fun _ _ => bind ih fun _ _ => pure True.intro

/-- A template gives a text. -/
theorem template (host : Host) (scope : ScopeId) (text : String) :
    (template host scope text).Quiet fun v => v.closures = [] :=
  bind (segments host scope _) fun _ _ => pure rfl

end Quiet

end Eval

/-! ### What continues a history -/

/-- The history is orderly, and the scope exists after it. -/
structure Ready (ran : Node → Prop) (scope : ScopeId) (history : List Event) : Prop where
  /-- the history is orderly -/
  orderly : Orderly ran history
  /-- the scope exists -/
  lt : scope < (replay history).size

variable {ran : Node → Prop} {scope : ScopeId} {history : List Event}

theorem Recorded.bind_run {α β : Type} (m : Recorded α) (f : α → Recorded β) (w : World) :
    (m >>= f) w =
      match m w with
      | ((.ok a, w'), events) => ((f a w').1, events ++ (f a w').2)
      | ((.error e, w'), events) => ((.error e, w'), events) := rfl

/-- From the scopes after the history on, the record of the computation continues the history in an
orderly way and leads to the scopes at its end, and what it gives has the property. -/
def Recorded.Keeps {α : Type} (ran : Node → Prop) (history : List Event) (m : Recorded α)
    (P : List Event → α → Prop) : Prop :=
  ∀ w, w.store = replay history →
    (m w).1.2.store = replay (history ++ (m w).2) ∧ Orderly ran (history ++ (m w).2) ∧
      ∀ a, (m w).1.1 = .ok a → P (history ++ (m w).2) a

namespace Recorded.Keeps

variable {α β : Type} {P : List Event → α → Prop} {Q : List Event → β → Prop}

theorem silent {m : Eval α} {R : α → Prop} (h : Orderly ran history) (hm : m.Quiet R)
    (hP : ∀ a, R a → P history a) : (silent m).Keeps ran history P := by
  intro w hw
  obtain ⟨hstore, hgives⟩ := hm w
  rw [Recorded.silent, List.append_nil]
  exact ⟨hstore.trans hw, h, fun a ha => hP a (hgives a ha)⟩

theorem fail (h : Orderly ran history) (e : Failure) :
    (Recorded.silent (Eval.fail e)).Keeps ran history P :=
  Keeps.silent (R := fun _ => False) h (.of_apart (.fail e)) nofun

/-- A computation that leaves the scopes alone, whatever it gives. -/
theorem idle {m : Eval α} (h : Orderly ran history) (hm : m.Quiet fun _ => True) :
    (Recorded.silent m).Keeps ran history fun _ _ => True :=
  Keeps.silent h hm fun _ _ => True.intro

theorem pure {a : α} (h : Orderly ran history) (ha : P history a) :
    (pure a : Recorded α).Keeps ran history P :=
  silent (R := fun b => b = a) h (.pure rfl) (by rintro _ rfl; exact ha)

theorem bind {m : Recorded α} {f : α → Recorded β} (hready : Ready ran scope history)
    (hm : m.Keeps ran history P)
    (hf : ∀ later a, history <+: later → Ready ran scope later → P later a →
      (f a).Keeps ran later Q) : (m >>= f).Keeps ran history Q := by
  intro w hw
  obtain ⟨hstore, horderly, hgives⟩ := hm w hw
  rw [bind_run]
  rcases hmw : m w with ⟨⟨e | a, w'⟩, events⟩
  · rw [hmw] at hstore horderly
    exact ⟨hstore, horderly, nofun⟩
  · rw [hmw] at hstore horderly hgives
    have hlater : history <+: history ++ events := List.prefix_append _ _
    have hlt : scope < (replay (history ++ events)).size :=
      Nat.lt_of_lt_of_le hready.lt (size_replay_le hlater)
    obtain ⟨hstore', horderly', hgives'⟩ :=
      hf _ a hlater ⟨horderly, hlt⟩ (hgives a rfl) w' hstore
    rw [List.append_assoc] at hstore' horderly' hgives'
    exact ⟨hstore', horderly', hgives'⟩

/-- A computation that is one event of the record, if it does to the scopes what the event says. -/
theorem noted {m : Eval α} {event : Store → Event} (h : Orderly ran history)
    (hallowed : (event (replay history)).Allowed ran history)
    (hstore : ∀ w, (m w).2.store = (event w.store).apply w.store)
    (hgives : ∀ w a, w.store = replay history → (m w).1 = .ok a →
      P (history ++ [event (replay history)]) a) : (noted event m).Keeps ran history P := by
  intro w hw
  rw [Recorded.noted, hw, replay_append_singleton]
  refine ⟨?_, h.snoc hallowed, fun a ha => hgives w a hw ha⟩
  rw [hstore, hw]

theorem assign {name : String} {v : Value} (h : Ready ran scope history) (hv : Known history v) :
    (assign scope name v).Keeps ran history fun _ _ => True :=
  noted h.orderly (.assigned h.lt hv) (fun _ => rfl) fun _ _ _ _ => True.intro

theorem declare {name : String} {params : List String} {body : Node}
    (h : Ready ran scope history) (hran : ran (.declare name params body)) :
    (declare scope name params body).Keeps ran history fun _ _ => True :=
  noted h.orderly (.declared h.lt hran) (fun _ => rfl) fun _ _ _ _ => True.intro

/-- The scope for a call exists once it is made. -/
theorem enter {f : Closure} {args : List Value} (h : Orderly ran history)
    (hf : f.declaration ∈ history) (hargs : args.length = f.params.length)
    (hknown : ∀ v ∈ args, Known history v) :
    (enter f args).Keeps ran history fun later i => i < (replay later).size := by
  refine noted h (.called hf hargs hknown) (fun _ => rfl) ?_
  rintro w i hw ⟨⟩
  rw [replay_append_singleton, hw]
  simp [Event.apply]

theorem leave {v : Value} (h : Orderly ran history) (hv : Known history v) :
    (leave v).Keeps ran history Known := by
  refine noted h (.returned hv) (fun _ => rfl) ?_
  rintro w _ hw ⟨⟩
  exact hv.mono (List.prefix_append _ _)

/-- A value that is found under a name is known. -/
theorem lookup {name : String} (h : Orderly ran history) :
    (Recorded.silent (Eval.lookup scope name)).Keeps ran history Known := by
  intro w hw
  rw [Recorded.silent, List.append_nil, Eval.lookup]
  split
  case h_1 v hv =>
    refine ⟨hw, h, ?_⟩
    rintro _ ⟨⟩ f hf
    obtain ⟨j, -, hv⟩ := Store.exists_of_lookup? hv
    rw [hw] at hv
    exact h.known (Bindings.mem_closures_of_lookup hv hf)
  case h_2 => exact ⟨hw, h, nofun⟩

end Recorded.Keeps

/-! ### Evaluation -/

theorem known_of_closures_eq_nil {v : Value} (h : v.closures = []) : Known history v := by
  intro f hf
  rw [h] at hf
  cases hf

/-- A computation that leaves the scopes alone and gives no function. -/
theorem Recorded.Keeps.plain {m : Eval Value} (h : Orderly ran history)
    (hm : m.Quiet fun v => v.closures = []) : (Recorded.silent m).Keeps ran history Known :=
  Recorded.Keeps.silent h hm fun _ hv => known_of_closures_eq_nil hv

/-- Every declaration in the tree belongs to the programs that were run. -/
def Node.Covered (ran : Node → Prop) (n : Node) : Prop := ∀ d ∈ n.declarations, ran d

theorem Node.Covered.child {n m : Node} (h : n.Covered ran) (hm : m ∈ n.children) : m.Covered ran :=
  fun d hd => h d (mem_declarations_of_mem_children hm hd)

/-- A way to run nodes that keeps histories orderly. -/
def KeepsRunner (ran : Node → Prop) (run : ScopeId → Node → Recorded Value) : Prop :=
  ∀ scope n history, Ready ran scope history → n.Covered ran →
    (run scope n).Keeps ran history Known

/-- The declarations inside a declaration belong to the programs that were run if it does. -/
def Inherited (ran : Node → Prop) : Prop := ∀ n, ran n → n.Covered ran

section

variable {run : ScopeId → Node → Recorded Value} {host : Host}

theorem Recorded.Keeps.forEach {body : Int → Recorded Value} (h : Ready ran scope history)
    (hbody : ∀ i later, Ready ran scope later → (body i).Keeps ran later Known) (count : Nat)
    (first : Int) {last : Value} (hlast : Known history last) :
    (Recorded.forEach body count first last).Keeps ran history Known := by
  induction count generalizing history first last with
  | zero => exact pure h.orderly hlast
  | succ count ih =>
    exact bind h (hbody first history h) fun later v _ h hv => ih h (first + 1) hv

/-- A call keeps the history orderly if the body of the function does: the scope made for the call
lies in that of the declaration. -/
theorem Recorded.Keeps.invoke (hran : Inherited ran) (hrun : KeepsRunner ran run)
    (h : Ready ran scope history) {f : Closure} (hf : f.declaration ∈ history) {args : List Value}
    (hargs : ∀ v ∈ args, Known history v) :
    (Recorded.invoke run f args).Keeps ran history Known := by
  rw [Recorded.invoke]
  split
  · exact fail h.orderly _
  case isFalse hlen =>
    refine bind h (enter h.orderly hf (by omega) hargs) fun later i hlater h hi => ?_
    -- the function was declared by a program that was run, and so is all that its body declares
    have hbody : f.body.Covered ran :=
      (hran _ (h.orderly.founded (hlater.subset hf)).ran).child List.mem_cons_self
    refine bind h (hrun i f.body later ⟨h.orderly, hi⟩ hbody) fun later v _ h hv => ?_
    exact leave h.orderly hv

mutual

/-- Evaluation of a node keeps the history orderly, and its value is known. -/
theorem Node.keeps_recordWith (hran : Inherited ran) (hrun : KeepsRunner ran run) :
    (n : Node) → {history : List Event} → Ready ran scope history →
    n.Covered ran → (n.recordWith host run scope).Keeps ran history Known
  | .int _, _, h, _ | .str _, _, h, _ | .bool _, _, h, _ | .none, _, h, _ =>
    .pure h.orderly (known_of_closures_eq_nil rfl)
  | .template text, _, h, _ => .plain h.orderly (.template host scope text)
  | .var _, _, h, _ => .lookup h.orderly
  | .assign name e, _, h, hn => by
    refine .bind h (e.keeps_recordWith hran hrun h (hn.child (by simp [Node.children]))) ?_
    intro later v _ h hv
    refine .bind h (.assign h hv) fun later _ hlater h _ => ?_
    refine .bind h (.idle h.orderly (.of_apart (.ofExcept fun _ _ => True.intro))) fun later' _ hlater' h _ => ?_
    refine .bind h (.idle h.orderly (.note _ _ _)) fun later'' _ hlater'' h _ => ?_
    exact .pure h.orderly (hv.mono (hlater.trans (hlater'.trans hlater'')))
  | .unary op e, _, h, hn => by
    refine .bind h (e.keeps_recordWith hran hrun h (hn.child (by simp [Node.children]))) ?_
    intro later v _ h _
    exact .plain h.orderly (.of_apart (.unary op v))
  | .print e, _, h, hn => by
    refine .bind h (e.keeps_recordWith hran hrun h (hn.child (by simp [Node.children]))) ?_
    intro later v _ h _
    exact .plain h.orderly (.of_apart (.print v))
  | .read e, _, h, hn => by
    refine .bind h (e.keeps_recordWith hran hrun h (hn.child (by simp [Node.children]))) ?_
    intro later v _ h _
    exact .plain h.orderly (.of_apart (.contents host v))
  | .binary op l r, _, h, hn => by
    refine .bind h (l.keeps_recordWith hran hrun h (hn.child (by simp [Node.children]))) ?_
    intro later x _ h _
    refine .bind h (r.keeps_recordWith hran hrun h (hn.child (by simp [Node.children]))) ?_
    intro later y _ h _
    exact .plain h.orderly (.of_apart (.binary op x y))
  | .split l r, _, h, hn => by
    refine .bind h (l.keeps_recordWith hran hrun h (hn.child (by simp [Node.children]))) ?_
    intro later x _ h _
    refine .bind h (r.keeps_recordWith hran hrun h (hn.child (by simp [Node.children]))) ?_
    intro later y _ h _
    exact .plain h.orderly (.of_apart (.split x y))
  | .choice c t f, _, h, hn | .ifElse c t f, _, h, hn => by
    refine .bind h (c.keeps_recordWith hran hrun h (hn.child (by simp [Node.children]))) ?_
    intro later v _ h _
    refine .bind h (.idle h.orderly (.of_apart (.condition _ _))) fun later b _ h _ => ?_
    split
    · exact t.keeps_recordWith hran hrun h (hn.child (by simp [Node.children]))
    · exact f.keeps_recordWith hran hrun h (hn.child (by simp [Node.children]))
  | .forLoop name first last body, _, h, hn => by
    refine .bind h (first.keeps_recordWith hran hrun h (hn.child (by simp [Node.children]))) ?_
    intro later v _ h _
    split
    · refine .bind h (last.keeps_recordWith hran hrun h (hn.child (by simp [Node.children]))) ?_
      intro later v _ h _
      split
      · refine .bind h (.idle h.orderly (.of_apart (.textsOf _))) fun later _ _ h _ => ?_
        refine .bind h (.idle h.orderly (.note _ _ _)) fun later _ _ h _ => ?_
        refine .forEach h (fun i later h => ?_) _ _ (known_of_closures_eq_nil rfl)
        refine .bind h (.assign h (known_of_closures_eq_nil rfl)) fun later _ _ h _ => ?_
        exact body.keeps_recordWith hran hrun h (hn.child (by simp [Node.children]))
      · exact .pure h.orderly (known_of_closures_eq_nil rfl)
    · exact .pure h.orderly (known_of_closures_eq_nil rfl)
  | .block ns, _, h, hn =>
    Node.keeps_recordBlock hran hrun ns h (known_of_closures_eq_nil rfl) fun _ hm => hn.child hm
  | .declare name params body, _, h, hn => by
    have hself : ran (.declare name params body) :=
      hn _ (Node.mem_declarations_iff.mpr (.inl ⟨rfl, rfl⟩))
    refine .bind h (.declare h hself) fun later _ _ h _ => ?_
    exact .pure h.orderly (known_of_closures_eq_nil rfl)
  | .call name args, _, h, hn => by
    refine .bind h (.lookup h.orderly) fun later v _ h hv => ?_
    split
    · refine .bind h (Node.keeps_recordArgs hran hrun args h fun _ hm => hn.child hm) ?_
      intro later vs hlater h hvs
      refine .bind h (.idle h.orderly (.of_apart (.textsOf _))) fun later' _ hlater' h _ => ?_
      refine .bind h (.idle h.orderly (.note _ _ _)) fun later'' _ hlater'' h _ => ?_
      -- the function was looked up before its arguments, and is known still
      have hrest := hlater'.trans hlater''
      have hf := (hlater.trans hrest).subset (hv _ List.mem_cons_self)
      exact .invoke hran hrun h hf fun v hv => (hvs v hv).mono hrest
    · exact .fail h.orderly _

/-- The same for several statements. -/
theorem Node.keeps_recordBlock (hran : Inherited ran) (hrun : KeepsRunner ran run) :
    (ns : List Node) → {history : List Event} → {last : Value} →
    Ready ran scope history → Known history last → (∀ n ∈ ns, n.Covered ran) →
    (Node.recordBlock host run scope ns last).Keeps ran history Known
  | [], _, _, h, hlast, _ => .pure h.orderly hlast
  | n :: ns, _, _, h, _, hns => by
    obtain ⟨hn, hns⟩ := List.forall_mem_cons.mp hns
    refine .bind h (.idle h.orderly (.note _ _ _)) fun later _ _ h _ => ?_
    refine .bind h (n.keeps_recordWith hran hrun h hn) fun later v _ h hv => ?_
    exact Node.keeps_recordBlock hran hrun ns h hv hns

/-- The same for several arguments. -/
theorem Node.keeps_recordArgs (hran : Inherited ran) (hrun : KeepsRunner ran run) :
    (ns : List Node) → {history : List Event} →
    Ready ran scope history → (∀ n ∈ ns, n.Covered ran) →
    (Node.recordArgs host run scope ns).Keeps ran history fun later vs => ∀ v ∈ vs, Known later v
  | [], _, h, _ => .pure h.orderly nofun
  | n :: ns, _, h, hns => by
    obtain ⟨hn, hns⟩ := List.forall_mem_cons.mp hns
    refine .bind h (n.keeps_recordWith hran hrun h hn) fun later v _ h hv => ?_
    refine .bind h (Node.keeps_recordArgs hran hrun ns h hns) fun later vs hlater h hvs => ?_
    exact .pure h.orderly (List.forall_mem_cons.mpr ⟨hv.mono hlater, hvs⟩)

end

end

/-- Evaluation with any bound on the depth of calls keeps the history orderly, and its value is
known. -/
theorem Node.keeps_recordWithin {host : Host} (hran : Inherited ran) (calls : Nat) :
    KeepsRunner ran (Node.recordWithin host calls) := by
  induction calls with
  | zero =>
    intro scope n history h hn
    exact n.keeps_recordWith hran (fun _ _ _ h _ => .fail h.orderly _) h hn
  | succ calls ih =>
    intro scope n history h hn
    exact n.keeps_recordWith hran ih h hn

end Kestrel
