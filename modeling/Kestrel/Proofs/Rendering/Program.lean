import Kestrel.Proofs.Reading.Statement
import Kestrel.Proofs.Rendering.Expression
import Kestrel.Proofs.Rendering.Words
import Kestrel.Reader.Program

/-!
# Programs read back

A program that is rendered is read back as the program it was (`parseProgram_render`). The induction is
on the statements. Conditions need a second invariant, `Conditioned`: behind an `else` a condition is
read without a look at the other kinds of statement, and with a bound of its own.
-/

namespace Kestrel.Written

open Reader Text

/-- The statement is read where it was written. An `else` behind it would be taken for its own. -/
def Said (n : Node) : Prop :=
  ∀ bound us, (sentence n).length ≤ bound → us.head? ≠ some (.keyword .else) →
    Reads (statementAt (bound + 1)) (sentence n ++ us) n us

/-- The condition is read where it was written, also behind an `else`. -/
def Conditioned (n : Node) : Prop :=
  ∀ bound count us, (sentence n).length ≤ bound → (sentence n).length ≤ count →
    us.head? ≠ some (.keyword .else) →
    Reads (conditional (expressionAt (bound + 1)) (Reader.block (statementAt bound) (bound + 1)) count)
      (sentence n ++ us) n us

variable {bound : Nat} {us : List Token}

/-! ### Assignments and expressions -/

/-- What starts as an expression is none of the statements with a sign of their own. -/
theorem statementTests_of_inExpression {t : Token} (h : inExpression t = true) :
    (statementTests.take 4).all (fun test => !test t) = true := by
  cases t with
  | keyword k => cases k <;> first | rfl | exact absurd h (by decide)
  | sign s => cases s <;> first | rfl | exact absurd h (by decide)
  | _ => rfl

/-- The first token of an expression is one of its tokens. -/
theorem IsExpression.inExpression_head {e : Node} (h : IsExpression e) {t : Token}
    (ht : (phrase e ++ us).head? = some t) : inExpression t = true := by
  obtain ⟨t', ts, hphrase⟩ := List.exists_cons_of_ne_nil h.phrase_ne_nil
  rw [hphrase, List.cons_append, List.head?_cons] at ht
  obtain rfl := Option.some.inj ht
  exact (h.inner t' (by simp [hphrase])).2

/-- An expression with a semicolon behind it is no assignment. -/
theorem IsExpression.refuses_assignment {e : Node} (h : IsExpression e) {expression : Rule Node} :
    Refuses (assignment expression) (phrase e ++ .sign .semicolon :: us) := by
  refine Written.refuses_assignment (fun ht => ?_) fun x ws hws ht => ?_
  · exact absurd (h.inExpression_head ht) (by decide)
  · obtain ⟨t, ts, hphrase⟩ := List.exists_cons_of_ne_nil h.phrase_ne_nil
    rw [hphrase, List.cons_append, List.cons.injEq] at hws
    obtain ⟨-, rfl⟩ := hws
    cases ts with
    | nil => exact absurd ht (by simp)
    | cons t' ts =>
      obtain rfl : t' = .sign .assign := Option.some.inj ht
      exact absurd (h.inner (.sign .assign) (by simp [hphrase])).2 (by decide)

theorem IsExpression.said {e : Node} (h : IsExpression e) : Said e := by
  intro bound us hbound _
  rw [h.sentence_eq, List.length_append] at hbound
  rw [h.sentence_eq, List.append_assoc, List.singleton_append]
  have hread : Reads (expressionAt (bound + 1)) (phrase e ++ .sign .semicolon :: us) e
      (.sign .semicolon :: us) :=
    h.phrased.reads (by omega) (stops_cons rfl us)
  refine reads_statementAt_drop 4
    (fun t ht => statementTests_of_inExpression (h.inExpression_head ht)) ?_
  exact (reads_simple_expression h.refuses_assignment hread (reads_semicolon us)).orElse _

theorem said_assign {x : String} {e : Node} (he : IsExpression e) : Said (.assign x e) := by
  intro bound us hbound _
  simp only [sentence, List.length_cons, List.length_append] at hbound
  simp only [sentence, List.cons_append, List.append_assoc, List.nil_append]
  have hread : Reads (expressionAt (bound + 1)) (phrase e ++ .sign .semicolon :: us) e
      (.sign .semicolon :: us) :=
    he.phrased.reads (by omega) (stops_cons rfl us)
  refine reads_statementAt_drop 4 (fun t ht => ?_) ?_
  · obtain rfl := Option.some.inj ht
    rfl
  · exact (reads_simple_assignment (reads_assignment hread) (reads_semicolon us)).orElse _

/-! ### Rows of statements -/

/-- A statement does not start with `else`. -/
theorem IsStatement.head_ne_else {n : Node} (h : IsStatement n) (us : List Token) :
    (sentence n ++ us).head? ≠ some (.keyword .else) := by
  cases h with
  | expression he =>
    intro ht
    rw [he.sentence_eq, List.append_assoc] at ht
    exact absurd (he.inExpression_head ht) (by decide)
  | _ => simp [sentence, braced]

theorem sentences_head_ne_else {ns : List Node} (h : ∀ n ∈ ns, IsStatement n)
    (hus : us.head? ≠ some (.keyword .else)) :
    (sentences ns ++ us).head? ≠ some (.keyword .else) := by
  cases ns with
  | nil => exact hus
  | cons n ns =>
    rw [sentences, List.append_assoc]
    exact (h n (by simp)).head_ne_else _

theorem IsStatement.sentence_ne_nil {n : Node} (h : IsStatement n) : sentence n ≠ [] := by
  cases h with
  | expression he => simp [he.sentence_eq]
  | _ => simp [sentence, braced]

/-- A row of statements ends where none can start. -/
theorem reads_sentences {ns : List Node} (hns : ∀ n ∈ ns, IsStatement n) (hsaid : ∀ n ∈ ns, Said n)
    (hbound : (sentences ns).length ≤ bound) (hus : ∀ t, us.head? = some t → startsStatement t = false)
    (helse : us.head? ≠ some (.keyword .else)) (count : Nat) (hcount : (sentences ns).length < count) :
    Reads (Rule.many (statementAt (bound + 1)) count) (sentences ns ++ us) ns us := by
  induction ns generalizing count with
  | nil =>
    obtain ⟨count, rfl⟩ := Nat.exists_eq_succ_of_ne_zero (Nat.ne_of_gt hcount)
    exact (refuses_statementAt hus).many count
  | cons n ns ih =>
    obtain ⟨hn, hns⟩ := List.forall_mem_cons.mp hns
    obtain ⟨hsaid, hsaids⟩ := List.forall_mem_cons.mp hsaid
    obtain ⟨count, rfl⟩ := Nat.exists_eq_succ_of_ne_zero (Nat.ne_of_gt (Nat.zero_lt_of_lt hcount))
    have hpos : 0 < (sentence n).length := List.length_pos_of_ne_nil hn.sentence_ne_nil
    simp only [sentences, List.length_append] at hbound hcount
    rw [sentences, List.append_assoc]
    refine (hsaid bound _ (by omega) (sentences_head_ne_else hns helse)).many ?_
    exact ih hns hsaids (by omega) count (by omega)

/-- Statements between braces. -/
theorem reads_braced {ns : List Node} (hns : ∀ n ∈ ns, IsStatement n) (hsaid : ∀ n ∈ ns, Said n)
    (hbound : (braced (sentences ns)).length ≤ bound) (us : List Token) :
    Reads (Reader.block (statementAt bound) (bound + 1)) (braced (sentences ns) ++ us) (.block ns) us := by
  simp only [braced, List.length_append, List.length_cons, List.length_nil] at hbound
  simp only [braced, List.cons_append, List.append_assoc, List.nil_append]
  obtain ⟨bound, rfl⟩ := Nat.exists_eq_succ_of_ne_zero (n := bound) (by omega)
  refine reads_block (reads_sentences hns hsaid (by omega) (fun t ht => ?_) (by simp) _ (by omega))
  obtain rfl := Option.some.inj ht
  rfl

/-! ### Statements with blocks -/

theorem said_block {ns : List Node} (hns : ∀ n ∈ ns, IsStatement n) (hsaid : ∀ n ∈ ns, Said n) :
    Said (.block ns) := by
  intro bound us hbound _
  refine reads_statementAt_drop 3 (fun t ht => ?_) ((reads_braced hns hsaid hbound us).orElse _)
  obtain rfl := Option.some.inj ht
  rfl

theorem reads_moreNames (xs : List String) (count : Nat) (hcount : (moreNames xs).length < count)
    (us : List Token) :
    Reads (commaTail identifier count) (moreNames xs ++ .sign .closeParen :: us) xs
      (.sign .closeParen :: us) := by
  induction xs generalizing count with
  | nil =>
    obtain ⟨count, rfl⟩ := Nat.exists_eq_succ_of_ne_zero (Nat.ne_of_gt hcount)
    exact reads_commaTail_nil (by simp [moreNames])
  | cons x xs ih =>
    obtain ⟨count, rfl⟩ := Nat.exists_eq_succ_of_ne_zero (Nat.ne_of_gt (Nat.zero_lt_of_lt hcount))
    have hlength : (moreNames (x :: xs)).length = 2 + (moreNames xs).length := by
      rw [moreNames, List.flatMap_cons, List.length_append]
      rfl
    exact reads_commaTail_cons (reads_identifier x _) (ih count (by omega))

theorem reads_nameTokens (xs : List String) (count : Nat) (hcount : (nameTokens xs).length < count)
    (us : List Token) :
    Reads (commaList identifier count) (nameTokens xs ++ .sign .closeParen :: us) xs
      (.sign .closeParen :: us) := by
  cases xs with
  | nil => exact reads_commaList_nil (refuses_identifier (by simp [nameTokens]))
  | cons x xs =>
    simp only [nameTokens, List.length_cons] at hcount
    exact reads_commaList_cons (reads_identifier x _) (reads_moreNames xs count (by omega) us)

theorem said_declare {x : String} {params : List String} {ns : List Node}
    (hns : ∀ n ∈ ns, IsStatement n) (hsaid : ∀ n ∈ ns, Said n) :
    Said (.declare x params (.block ns)) := by
  intro bound us hbound _
  simp only [sentence, parenthesized, List.length_cons, List.length_append, List.length_nil] at hbound
  simp only [sentence, parenthesized, List.cons_append, List.append_assoc, List.nil_append]
  refine reads_statementAt_drop 0 (fun _ _ => rfl) (Reads.orElse ?_ _)
  exact reads_declaration (reads_nameTokens params _ (by omega) _)
    (reads_braced hns hsaid (by omega) us)

theorem said_forLoop {x : String} {first last : Node} {ns : List Node} (hfirst : IsExpression first)
    (hlast : IsExpression last) (hns : ∀ n ∈ ns, IsStatement n) (hsaid : ∀ n ∈ ns, Said n) :
    Said (.forLoop x first last (.block ns)) := by
  intro bound us hbound _
  simp only [sentence, parenthesized, List.length_cons, List.length_append, List.length_nil] at hbound
  simp only [sentence, parenthesized, List.cons_append, List.append_assoc, List.nil_append]
  refine reads_statementAt_drop 1 (fun t ht => ?_) (Reads.orElse ?_ _)
  · obtain rfl := Option.some.inj ht
    rfl
  · exact reads_loop (hfirst.phrased.reads (by omega) (stops_cons rfl _))
      (hlast.phrased.reads (by omega) (stops_cons rfl _))
      (reads_braced hns hsaid (by omega) us)

/-- What stands behind the first branch of a condition, if statements in it are read. -/
theorem reads_elseSentences (c yes : Node) {no : List Node} (hno : ∀ n ∈ no, IsStatement n)
    (hsaid : ∀ n ∈ no, Said n ∧ (isCondition n = true → Conditioned n))
    (hbound : (elseSentences no).length ≤ bound) (count : Nat)
    (hcount : (elseSentences no).length ≤ count) (helse : us.head? ≠ some (.keyword .else)) :
    ∃ other, ifNode c yes other = .ifElse c yes (.block no) ∧
      Reads (elsePart (expressionAt (bound + 1)) (Reader.block (statementAt bound) (bound + 1)) count)
        (elseSentences no ++ us) other us := by
  cases no with
  | nil => exact ⟨none, rfl, reads_elsePart_none helse⟩
  | cons n ns =>
    simp only [elseSentences, List.length_cons] at hbound hcount
    obtain ⟨count, rfl⟩ := Nat.exists_eq_succ_of_ne_zero (n := count) (by omega)
    by_cases hif : (ns.isEmpty && isCondition n) = true
    · -- the only statement is a condition
      rw [if_pos hif] at hbound hcount
      rw [elseSentences, if_pos hif]
      simp only [Bool.and_eq_true, List.isEmpty_iff] at hif
      obtain ⟨rfl, hcondition⟩ := hif
      refine ⟨some n, ?_, reads_elsePart_if ?_⟩
      · cases n with
        | ifElse c' yes' no' => rfl
        | _ => exact absurd hcondition (by simp [isCondition])
      · exact (hsaid n (by simp)).2 hcondition bound _ us (by omega) (by omega) helse
    · rw [if_neg hif] at hbound hcount
      rw [elseSentences, if_neg hif]
      refine ⟨some (.block (n :: ns)), rfl, reads_elsePart_block (by simp [braced]) ?_⟩
      exact reads_braced hno (fun m hm => (hsaid m hm).1) (by simpa only [sentences] using by omega) us

theorem conditioned_ifElse {c : Node} {yes no : List Node} (hc : IsExpression c)
    (hyes : ∀ n ∈ yes, IsStatement n) (hno : ∀ n ∈ no, IsStatement n)
    (hyesSaid : ∀ n ∈ yes, Said n)
    (hnoSaid : ∀ n ∈ no, Said n ∧ (isCondition n = true → Conditioned n)) :
    Conditioned (.ifElse c (.block yes) (.block no)) := by
  intro bound count us hbound hcount helse
  simp only [sentence, elseSentence, parenthesized, List.length_cons, List.length_append,
    List.length_nil] at hbound hcount
  simp only [sentence, elseSentence, parenthesized, List.cons_append, List.append_assoc,
    List.nil_append]
  obtain ⟨count, rfl⟩ := Nat.exists_eq_succ_of_ne_zero (n := count) (by omega)
  have helseBound : (elseSentences no).length ≤ bound := by omega
  obtain ⟨other, hnode, hother⟩ :=
    reads_elseSentences c (.block yes) hno hnoSaid helseBound count (by omega) helse
  rw [← hnode]
  exact reads_conditional (hc.phrased.reads (by omega) (stops_cons rfl _))
    (reads_braced hyes hyesSaid (by omega) _) hother

theorem Conditioned.said {c yes no : Node} (h : Conditioned (.ifElse c yes no)) :
    Said (.ifElse c yes no) := by
  intro bound us hbound helse
  refine reads_statementAt_drop 2 (fun t ht => ?_) (Reads.orElse ?_ _)
  · obtain rfl := Option.some.inj ht
    rfl
  · exact h bound (bound + 1) us hbound (by omega) helse

/-! ### Every statement -/

/-- The invariant of the induction over statements. -/
theorem IsStatement.said_and_conditioned {n : Node} (h : IsStatement n) :
    Said n ∧ (isCondition n = true → Conditioned n) := by
  induction h with
  | @expression e he =>
    refine ⟨he.said, fun hcondition => ?_⟩
    cases he <;> exact absurd hcondition (by simp [isCondition])
  | assign hx he => exact ⟨said_assign he, by simp [isCondition]⟩
  | block hns ih => exact ⟨said_block hns fun n hn => (ih n hn).1, by simp [isCondition]⟩
  | declare hx hparams hns ih =>
    exact ⟨said_declare hns fun n hn => (ih n hn).1, by simp [isCondition]⟩
  | forLoop hx hfirst hlast hns ih =>
    exact ⟨said_forLoop hfirst hlast hns fun n hn => (ih n hn).1, by simp [isCondition]⟩
  | ifElse hc hyes hno ihyes ihno =>
    have hcondition := conditioned_ifElse hc hyes hno (fun n hn => (ihyes n hn).1) ihno
    exact ⟨hcondition.said, fun _ => hcondition⟩

/-! ### Whole programs -/

/-- At the end of the text nothing is left over. -/
theorem atEnd_of_stands {α : Type} {a : α} {c : Cursor} (h : Stands c []) : atEnd a c = .ok a := by
  rw [atEnd, h.rest]
  rfl

/-- A text of tokens without tabs is read as these tokens. -/
theorem parseProgram_eq_ok {ts : List Token} {ns : List Node} (hclean : ∀ t ∈ ts, Clean t)
    (h : ∀ bound, ts.length ≤ bound →
      Reads (Rule.many (statementAt (bound + 1)) (bound + 1)) ts ns []) (filename : String) :
    parseProgram (String.ofList (write ts)) filename = .ok ns := by
  have hvalid : ∀ t ∈ ts, t.valid = true := fun t ht => (hclean t ht).1
  have hlength : ts.length ≤ (write ts).length + 1 :=
    Nat.le_succ_of_le (length_le_length_write hvalid)
  obtain ⟨c, hread, hend⟩ := h _ hlength _ (Stands.start hvalid)
  have hprogram : readStatements (write ts) = .ok ns := by
    rw [readStatements, readingBound, hread]
    exact atEnd_of_stands hend
  simp only [parseProgram, parseWith, String.toList_ofList, expandTabs,
    expandTabsFrom_eq_self (tab_not_mem_write fun t ht => (hclean t ht).2), hprogram]

/-- Reading undoes rendering. -/
theorem parseProgram_render {program : List Node} (h : ∀ n ∈ program, IsStatement n)
    (filename : String) : parseProgram (render program) filename = .ok program := by
  refine parseProgram_eq_ok (clean_sentences fun n hn => (h n hn).clean) (fun bound hbound => ?_) filename
  have hsaid : ∀ n ∈ program, Said n := fun n hn => (h n hn).said_and_conditioned.1
  have hread : Reads _ (sentences program ++ []) program [] :=
    reads_sentences h hsaid hbound (by simp) (by simp) (bound + 1) (by omega)
  rwa [List.append_nil] at hread

/-- A choice in a sum, a sum in a product, a text with a quote, and a chain of conditions. -/
theorem parseProgram_render_nested :
    parseProgram (render [
      .assign "a" (.binary .mul (.binary .add (.int 1) (.unary .neg (.var "b")))
        (.choice (.var "c") (.str "say \"so\"") (.template "$\x7ba\x7d"))),
      .ifElse (.call "f" [.var "a", .none]) (.block [])
        (.block [.ifElse (.bool true) (.block [.print (.var "a")]) (.block [])])]) "nested.k" =
      .ok [
        .assign "a" (.binary .mul (.binary .add (.int 1) (.unary .neg (.var "b")))
          (.choice (.var "c") (.str "say \"so\"") (.template "$\x7ba\x7d"))),
        .ifElse (.call "f" [.var "a", .none]) (.block [])
          (.block [.ifElse (.bool true) (.block [.print (.var "a")]) (.block [])])] := by
  refine parseProgram_render ?_ _
  have ha : isName "a".toList = true := by decide
  have hf : isName "f".toList = true := by decide
  have hb : IsExpression (.var "b") := .var (by decide)
  have hc : IsExpression (.var "c") := .var (by decide)
  have hone : IsExpression (.int 1) := .int (n := 1) (by decide)
  have hsay : IsExpression (.str "say \"so\"") := .str (mt (hasPlaceholder_iff _).mpr (by decide))
  have htemplate : IsExpression (.template "$\x7ba\x7d") :=
    .template ((hasPlaceholder_iff _).mp (by decide))
  simp only [List.forall_mem_cons]
  refine ⟨?_, ?_, by simp⟩
  · exact .assign ha (.binary .mul (.binary .add hone (.unary .neg hb)) (.choice hc hsay htemplate))
  · refine .ifElse (.call hf ?_) (by simp) ?_
    · simp only [List.forall_mem_cons]
      exact ⟨.var ha, .none, by simp⟩
    · simp only [List.forall_mem_singleton]
      refine .ifElse (.bool true) ?_ (by simp)
      simpa using .expression (.print (.var ha))

end Kestrel.Written
