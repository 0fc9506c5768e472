import Kestrel.Proofs.Formulas.Text
import Kestrel.Proofs.Machine.Performs
import Kestrel.Proofs.Templates.Segments
import Kestrel.Proofs.Tracing.Muted

/-!
# Templates segment by segment

The text of a template is put together from the texts of its segments. Each of them depends on the scopes
alone, as they are before the template is evaluated, since evaluation of a template changes nothing but the
trace. So a failure in one placeholder is nothing to the others, and a text that takes the place of a
placeholder is not searched for placeholders again.

* `Template.placeholderOutcome`, `Template.Segment.rendered`, `Template.joined` — what takes the place of a
  segment, and of segments in a row;
* `Eval.segments_eq_joined` — the evaluation of segments;
* `Node.template_rendered` — a template, as it is written.
-/

namespace Kestrel

open Template

/-- The text of a placeholder: its inside is read, the tree is evaluated, and the value is written. -/
def Template.placeholderOutcome (host : Host) (calls : Nat) (scope : ScopeId) (w : World)
    (inner : List Char) : Except Failure String := do
  let f ← Formula.read (w.store.contains scope) inner
  let v ← (f.toNode.evalWithin host calls scope w).1
  v.textOf

/-- The text of a segment. A failure of the program has a text as well. -/
def Template.Segment.rendered (host : Host) (calls : Nat) (scope : ScopeId) (w : World) :
    Segment → Except Failure String
  | .text chars => .ok (String.ofList chars)
  | .placeholder inner =>
    match placeholderOutcome host calls scope w inner with
    | .error (.runtime e) => .ok ("Error: " ++ e.message)
    | r => r

/-- The texts of segments in a row, or the failure of the first segment that has no text. -/
def Template.joined (render : Segment → Except Failure String) (ss : List Segment) :
    Except Failure String :=
  (ss.mapM render).map String.join

section

variable (host : Host) (calls : Nat) (scope : ScopeId)

/-! ### Placeholders -/

theorem Template.Formula.evalWith_toNode (run : Runner) (f : Formula) :
    f.toNode.evalWith host run scope = Machine.valueOf scope f := by
  induction f with
  | int value => rfl
  | var name => exact (Machine.valueOf_var scope name).symm
  | binary op l r ihl ihr => rw [Formula.toNode, Node.evalWith, ihl, ihr, Machine.valueOf_binary]

/-- Formulas are evaluated as their trees are, whatever calls are allowed. -/
theorem Template.Formula.evalWithin_toNode (f : Formula) :
    f.toNode.evalWithin host calls scope = Machine.valueOf scope f := by
  cases calls with
  | zero | succ => exact f.evalWith_toNode host scope _

theorem Template.placeholderOutcome_eq (w : World) (inner : List Char) :
    placeholderOutcome host calls scope w inner = placeholderText w.store scope inner := by
  rw [placeholderOutcome, placeholderText]
  cases Formula.read (w.store.contains scope) inner with
  | error e => rfl
  | ok f =>
    dsimp only [bind, Except.bind]
    rw [f.evalWithin_toNode, Machine.valueOf]
    rcases f.eval w.store scope with e | v <;> rfl

/-! ### Segments -/

theorem Template.Segment.rendered_withTrace (w : World) (trace : String) :
    Segment.rendered host calls scope (w.withTrace trace) = Segment.rendered host calls scope w := by
  funext s
  cases s with
  | text chars => rfl
  | placeholder inner =>
    rw [Segment.rendered, Segment.rendered, placeholderOutcome_eq, placeholderOutcome_eq]
    rfl

theorem Template.joined_cons (render : Segment → Except Failure String) (s : Segment)
    (ss : List Segment) :
    joined render (s :: ss) =
      match render s with
      | .error e => .error e
      | .ok text => (joined render ss).map (text ++ ·) := by
  rw [joined, joined, List.mapM_cons]
  cases render s with
  | error e => rfl
  | ok text =>
    cases ss.mapM render with
    | error e => rfl
    | ok texts => exact congrArg Except.ok String.join_cons

/-- An empty text adds nothing. -/
theorem Template.joined_filter {render : Segment → Except Failure String}
    (h : render (.text []) = .ok "") (ss : List Segment) :
    joined render (ss.filter (· ≠ .text [])) = joined render ss := by
  induction ss with
  | nil => rfl
  | cons s ss ih =>
    rw [joined_cons, ← ih]
    by_cases hs : s = .text []
    · rw [List.filter_cons_of_neg (by simpa using hs), hs, h]
      cases joined render (ss.filter (· ≠ .text [])) with
      | error e => rfl
      | ok text => exact congrArg Except.ok String.empty_append.symm
    · rw [List.filter_cons_of_pos (by simpa using hs), joined_cons]

theorem Eval.note_eq_withTrace (message : String) (w : World) :
    ∃ trace, Eval.note host scope message w = (.ok (), w.withTrace trace) := by
  rw [Eval.note, Eval.traceLine]
  split
  · exact ⟨_, rfl⟩
  · exact ⟨w.trace, rfl⟩

/-- A segment gives its text, and only the trace is changed. -/
theorem Eval.segment_eq_rendered (s : Segment) (w : World) :
    ∃ trace, Eval.segment host scope s w =
      (s.rendered host calls scope w, w.withTrace trace) := by
  cases s with
  | text chars => exact ⟨w.trace, rfl⟩
  | placeholder inner =>
    rw [Machine.segment_run, Segment.rendered, placeholderOutcome_eq]
    rcases placeholderText w.store scope inner with (e | e) | text
    · obtain ⟨trace, hnote⟩ := Eval.note_eq_withTrace host scope
        ("interpolation of '" ++ String.ofList inner ++ "' failed: " ++ e.message) w
      refine ⟨trace, ?_⟩
      rw [Machine.shown, Eval.bind_run, hnote]
      rfl
    · exact ⟨w.trace, rfl⟩
    · exact ⟨w.trace, rfl⟩

/-- Segments give their texts in a row, unless one of them fails. All of them are rendered in the world at
the beginning. -/
theorem Eval.segments_eq_joined (ss : List Segment) (w : World) :
    ∃ trace, Eval.segments host scope ss w =
      (joined (Segment.rendered host calls scope w) ss, w.withTrace trace) := by
  induction ss generalizing w with
  | nil => exact ⟨w.trace, rfl⟩
  | cons s ss ih =>
    obtain ⟨trace, hs⟩ := Eval.segment_eq_rendered host calls scope s w
    rw [Eval.segments, Eval.bind_run, hs, joined_cons]
    cases s.rendered host calls scope w with
    | error e => exact ⟨trace, rfl⟩
    | ok text =>
      -- the first segment may have added to the trace, on which the others do not depend
      obtain ⟨trace', hss⟩ := ih (w.withTrace trace)
      rw [Segment.rendered_withTrace] at hss
      refine ⟨trace', ?_⟩
      dsimp only
      rw [Eval.bind_run, hss]
      cases joined (Segment.rendered host calls scope w) ss <;> rfl

theorem Eval.segments_textSegment (chars : List Char) :
    Eval.segments host scope (textSegment chars.reverse) = pure (String.ofList chars) := by
  rw [textSegment, List.isEmpty_reverse, List.reverse_reverse]
  cases chars with
  | nil => rfl
  | cons c chars => exact congrArg Eval.pure String.append_empty

/-! ### Templates -/

/-- A template is rendered segment by segment: texts stay as they are, and the text of a value, or a word
about a failure of the program, takes the place of a placeholder. Where the failure is another one, the
evaluation ends with it. Nothing but the trace is changed. Without placeholders the template is a plain
text. -/
theorem Node.template_rendered (w : World) :
    (∀ ss : List Segment, (∀ s ∈ ss, s.Proper) → Apart ss →
      ∃ trace, (Node.template (String.ofList (spell ss))).evalWithin host calls scope w =
        ((joined (Segment.rendered host calls scope w) ss).map Value.str, w.withTrace trace)) ∧
    ∀ text : String, ¬['$', '{'] <:+: text.toList →
      (Node.template text).evalWithin host calls scope w =
        (Node.str text).evalWithin host calls scope w := by
  have htemplate (text : String) : (Node.template text).evalWithin host calls scope =
      Eval.template host scope text := by
    cases calls with
    | zero | succ => rfl
  refine ⟨fun ss hproper hapart => ?_, fun text h => ?_⟩
  · obtain ⟨trace, hss⟩ := Eval.segments_eq_joined host calls scope (segments (spell ss)) w
    refine ⟨trace, ?_⟩
    rw [segments_spell hproper hapart, joined_filter rfl] at hss
    rw [htemplate, Eval.template, String.toList_ofList, Eval.bind_run, segments_spell hproper hapart,
      hss]
    cases joined (Segment.rendered host calls scope w) ss <;> rfl
  · rw [htemplate, Eval.template, segments_of_not_infix h, Eval.segments_textSegment,
      String.ofList_toList]
    cases calls with
    | zero | succ => rfl

end

/-- What takes the place of a placeholder looks like two of them, a dollar sign stands in front of the next
one, and the name in that one is not bound. -/
theorem Node.template_rendered_twice :
    let host : Host := ⟨Files.empty, true, .ofCalls 1000⟩
    let w : World := ⟨Store.root [("a", .str "$\x7ba\x7d")], "", ""⟩
    let ss : List Segment :=
      [.placeholder "a * 2".toList, .text "\x7d$".toList, .placeholder "b".toList]
    (∀ s ∈ ss, s.Proper) ∧ Apart ss ∧
      (∃ trace, (Node.template (String.ofList (spell ss))).evalWithin host 3 0 w =
        (.ok (.str "$\x7ba\x7d$\x7ba\x7d\x7d$Error: Undefined variable: b"), w.withTrace trace)) ∧
      ¬['$', '{'] <:+: "$ \x7b\x7d".toList ∧
      (Node.template "$ \x7b\x7d").evalWithin host 3 0 w =
        (Node.str "$ \x7b\x7d").evalWithin host 3 0 w := by
  intro host w ss
  have hproper : ∀ s ∈ ss, s.Proper := by decide +kernel
  have hapart : Apart ss := by decide +kernel
  have hplain : ¬['$', '{'] <:+: "$ \x7b\x7d".toList := by decide +kernel
  have htwice : Segment.rendered host 3 0 w (.placeholder "a * 2".toList) =
      .ok "$\x7ba\x7d$\x7ba\x7d" := by
    have hdense : Text.removeBlanks "a * 2".toList = ['a', '*', '2'] := by decide +kernel
    have hlast : Formula.lastOperator? ['a', '*', '2'] = some (['a'], .mul, ['2']) := rfl
    have hread : Formula.read (w.store.contains 0) "a * 2".toList =
        .ok (.binary .mul (.var "a") (.int 2)) := by
      rw [Formula.read, hdense, Formulas.readDense_of_lastOperator? hlast,
        Formulas.readDense_of_eq_none rfl, Formula.readOperand, Formula.readOperand,
        if_neg (by decide), Store.contains_root, if_pos (by decide), if_pos (by decide)]
      rfl
    rw [Segment.rendered, placeholderOutcome_eq, placeholderText, hread]
    simp only [Formula.eval, w, Store.lookup?_root]
    rfl
  have hmissing : Segment.rendered host 3 0 w (.placeholder "b".toList) =
      .ok "Error: Undefined variable: b" := by
    have hdense : Text.removeBlanks "b".toList = ['b'] := by decide +kernel
    have hread : Formula.read (w.store.contains 0) "b".toList =
        .error (.runtime (.undefinedVariable "b")) := by
      rw [Formula.read, hdense, Formulas.readDense_of_eq_none rfl, Formula.readOperand,
        if_neg (by decide), Store.contains_root, if_neg (by decide)]
    rw [Segment.rendered, placeholderOutcome_eq, placeholderText, hread]
    rfl
  have hjoined : joined (Segment.rendered host 3 0 w) ss =
      .ok "$\x7ba\x7d$\x7ba\x7d\x7d$Error: Undefined variable: b" := by
    simp only [ss, joined_cons, htwice, hmissing]
    rfl
  have h := Node.template_rendered host 3 0 w
  obtain ⟨trace, htemplate⟩ := h.1 ss hproper hapart
  refine ⟨hproper, hapart, ⟨trace, ?_⟩, hplain, h.2 _ hplain⟩
  rw [htemplate, hjoined]
  rfl

end Kestrel
