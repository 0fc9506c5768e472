import Kestrel.Proofs.Joining.Session
import Kestrel.Proofs.Names.Touching

/-!
# A single expression as a program

A text can be read as a single expression or as a program. In a program the other kinds of statement are
tried first, and an expression may end before the text does. For a text that is a single expression none of
this makes a difference: no other kind of statement starts as an expression does, and where the text could
be an assignment, the expression would end at the equals sign.

* `expressionAt_of_assigned` — the expression at the start of an assignment;
* `statementAt_of_expressionAt` — the statement that a single expression is;
* `readStatements_of_readExpression` — the program that a single expression is;
* `Session.single_expression` — a session does the same with either.
-/

namespace Kestrel

namespace Reader

variable {c c₁ c' : Cursor} {e : Node} {n : Nat}

/-! ### Names at the start -/

section Named

variable {name : String} (hname : identifier c = .ok name c₁)
include hname

theorem keyword_eq_no_of_identifier (k : Keyword) : keyword k c = .no := by
  obtain ⟨-, hnone, -⟩ := identifier_eq_ok hname
  rw [anyKeywordAt, List.any_eq_false] at hnone
  exact keyword_eq_no_iff.mpr (Bool.eq_false_iff.mpr (hnone k k.mem_all))

theorem head_ne_of_identifier {x : Char} (hx : isNameStart x = false) :
    c.skip.rest.head? ≠ some x := by
  obtain ⟨hstart, -⟩ := identifier_eq_ok hname
  intro hhead
  rw [hhead, Option.any_some, hx] at hstart
  cases hstart

theorem integer_eq_no_of_identifier : integer c = .no := by
  obtain ⟨hstart, -⟩ := identifier_eq_ok hname
  have hdigits : c.skip.rest.takeWhile Text.isDecimalDigit = [] := by
    cases hrest : c.skip.rest with
    | nil => rfl
    | cons x xs =>
      rw [hrest] at hstart
      refine List.takeWhile_cons_of_neg ?_
      rw [Written.not_isDecimalDigit_of_isNameStart hstart]
      nofun
  rw [integer, hdigits]
  rfl

/-- A name that is not called is an operand. -/
theorem operand_of_identifier (hopen : symbol "(" c₁ = .no) (expression : Rule Node) (bound : Nat) :
    operand expression bound c = .ok (.var name) c₁ := by
  have hkeyword (k : Keyword) (f : Unit → Rule Node) : (keyword k >>= f) c = .no :=
    bind_eq_no (keyword_eq_no_of_identifier hname k) f
  have hinteger := integer_eq_no_of_identifier hname
  have hstring : string c = .no := string_eq_no (head_ne_of_identifier hname rfl)
  rw [operand, operandForms]
  simp only [Rule.oneOf]
  rw [orElse_of_no (bind_eq_no hinteger _), orElse_of_no (bind_eq_no hstring _)]
  iterate 6 rw [orElse_of_no (hkeyword _ _)]
  rw [orElse_of_no, orElse_of_ok]
  · rw [bind_eq_of_ok hname]
    rfl
  · rw [bind_eq_of_ok hname, bind_eq_no hopen]

end Named

/-! ### Assignments -/

theorem rest_of_assignSign (h : assignSign c ≠ .no) :
    ∃ cs, c.skip.rest = '=' :: cs ∧ "==".toList.isPrefixOf c.skip.rest = false := by
  rw [assignSign] at h
  split at h
  next hsign =>
    rw [Bool.and_eq_true, Bool.not_eq_true'] at hsign
    obtain ⟨hone, htwo⟩ := hsign
    obtain ⟨cs, hcs⟩ := List.isPrefixOf_iff_prefix.mp hone
    exact ⟨cs, hcs.symm, htwo⟩
  next => exact absurd rfl h

/-- A single equals sign is no operator. -/
theorem binaryOp_eq_no_of_assignSign (h : assignSign c ≠ .no) : binaryOp c = .no := by
  obtain ⟨cs, hrest, htwo⟩ := rest_of_assignSign h
  have hfirst : ∀ op ∈ operatorsBySymbol, op.symbol.toList ≠ [] ∧
      (op.symbol.toList.head? = some '=' → op = .equal) := by decide
  have hnone : operatorsBySymbol.find? (·.symbol.toList.isPrefixOf c.skip.rest) = none := by
    rw [List.find?_eq_none]
    intro op hop hstarts
    obtain ⟨hne, hequal⟩ := hfirst op hop
    have hhead := head?_of_isPrefixOf hne hstarts
    rw [hrest] at hhead
    obtain rfl := hequal hhead.symm
    exact absurd (htwo.symm.trans hstarts) nofun
  rw [binaryOp, hnone]

/-- Where an assignment starts, so does an expression, which ends in front of the equals sign. -/
theorem expressionAt_of_assigned {name : String} (hname : identifier c = .ok name c₁)
    (hsign : assignSign c₁ ≠ .no) : expressionAt (n + 2) c = .ok (.var name) c₁ := by
  obtain ⟨cs, hrest, -⟩ := rest_of_assignSign hsign
  have hsymbol {s : String} {x : Char} (hs : s.toList.head? = some x) (hx : '=' ≠ x) :
      symbol s c₁ = .no := by
    refine symbol_eq_no hs ?_
    rw [hrest]
    exact fun heq => hx (Option.some.inj heq)
  have hunary : unaryOp c = .no :=
    unaryOp_eq_no (head_ne_of_identifier hname rfl) (head_ne_of_identifier hname rfl)
  have hoperand := operand_of_identifier hname (hsymbol (s := "(") rfl (by decide))
    (expressionAt (n + 1)) (n + 1)
  have hfirst : Chain.step (operand (expressionAt (n + 1)) (n + 1)) (Chain.start c) =
      .more ⟨[], 0, some (.var name), c₁⟩ := by
    simp only [Chain.start, Chain.step, Chain.stepOperand, hunary, hoperand]
  have hsecond : Chain.step (operand (expressionAt (n + 1)) (n + 1)) ⟨[], 0, some (.var name), c₁⟩ =
      .done (.var name) c₁ := by
    have hcolon := hsymbol (s := ":") rfl (by decide)
    have hquestion := hsymbol (s := "?") rfl (by decide)
    simp only [Chain.step, Chain.stepOperator, if_pos, hcolon, binaryOp_eq_no_of_assignSign hsign,
      hquestion]
    rfl
  rw [expressionAt, chainAt_succ, Chain.run, hfirst]
  dsimp only
  rw [Chain.run, hsecond]
  rfl

/-! ### The statement that a single expression is -/

section Single

variable (h : expressionAt (n + 2) c = .ok e c') (hend : c'.skip.rest = [])
include h

theorem not_noOperand : ¬NoOperand c := by
  intro hno
  rw [hno.expressionAt] at h
  cases h

include hend

/-- It is no assignment. -/
theorem assignment_of_expressionAt : assignment (expressionAt (n + 2)) c = .no := by
  have hlet : keyword .let c = .no := by
    by_contra hlet
    exact not_noOperand h (.of_keyword hlet (by decide))
  rw [assignment, bind_eq_of_ok (optional_of_no hlet)]
  cases hname : identifier c with
  | no => exact bind_eq_no hname _
  | halt reason =>
    rw [identifier] at hname
    split at hname <;> cases hname
  | ok name c₁ =>
    rw [bind_eq_of_ok hname]
    by_cases hsign : assignSign c₁ = .no
    · exact bind_eq_no hsign _
    · -- the text would go on with the equals sign where the expression ends
      obtain ⟨cs, hrest, -⟩ := rest_of_assignSign hsign
      rw [expressionAt_of_assigned hname hsign] at h
      cases h
      rw [hrest] at hend
      cases hend

/-- It is a statement of the last kind, and no semicolon belongs to it. -/
theorem statementAt_of_expressionAt : statementAt (n + 2) c = .ok e c' := by
  have hkeyword {k : Keyword} (hk : k ∉ operandKeywords) : ¬keyword k c ≠ .no :=
    fun hword => not_noOperand h (.of_keyword hword hk)
  have hbrace : ¬symbol "\x7b" c ≠ .no :=
    fun hbrace => not_noOperand h (Barred.of_symbol hbrace).noOperand
  have hnone : symbol ";" c' = .no := by
    refine symbol_eq_no (x := ';') rfl ?_
    rw [hend]
    nofun
  have hsemicolon : semicolon c' = .ok () c' := by
    rw [semicolon, bind_eq_of_ok (optional_of_no hnone)]
    rfl
  rw [statementAt_eq, if_neg (hkeyword (by decide)), if_neg (hkeyword (by decide)),
    if_neg (hkeyword (by decide)), if_neg hbrace, simple,
    bind_eq_of_ok ((orElse_of_no (assignment_of_expressionAt h hend) _).trans h),
    bind_eq_of_ok hsemicolon]
  rfl

end Single

/-- A text that is a single expression is a program with this one statement. -/
theorem readStatements_of_readExpression {cs : List Char} (h : readExpression cs = .ok e) :
    readStatements cs = .ok [e] := by
  obtain ⟨c, hexpression, hend⟩ := readExpression_eq_ok_iff.mp h
  refine readStatements_eq_ok_iff.mpr ⟨c, ?_, hend⟩
  exact many_of_ok (statementAt_of_expressionAt hexpression hend)
    (many_of_no ((Closed.of_skip hend).statementAt _) _)

end Reader

namespace Session

/-- Steps that end as the same run without a trace does end alike. -/
theorem Shows.alike {host : Host} {q : Except Failure Value × World}
    {r r' : Except Problem Value × Session} (h : Shows host q r) (h' : Shows host q r') :
    r'.1 = r.1 ∧ r.2.Agrees r'.2 :=
  ⟨h'.outcome.trans h.outcome.symm, h.agrees.common h'.agrees⟩

/-- A program with a single statement does what the statement does. -/
theorem untraced_singleton (host : Host) (e : Node) :
    untraced host [e] = e.evalWithin host.untraced host.calls globalScope := by
  rw [untraced]
  cases host.calls with
  | zero | succ => exact Eval.bind_pure _

/-- A session evaluates an expression as the program with this one statement runs without a trace. -/
theorem shows_evalExpression {source : String} {e : Node} (s : Session)
    (h : parseExpression source "<input>" = .ok e) :
    Shows s.host (untraced s.host [e] s.world) (s.evalExpression source) := by
  have hmuted := Node.muted_evalWithin (fun _ => False) s.host s.host.calls globalScope e
  obtain ⟨hsame, -⟩ := hmuted.run s.world s.world.trace
  rw [World.withTrace_self] at hsame
  rw [evalExpression, h, untraced_singleton, hsame]
  dsimp only
  rw [perform, Node.eval]
  split
  next v w hrun => rw [hrun]; exact ⟨rfl, rfl, rfl, rfl⟩
  next e w hrun => rw [hrun]; exact ⟨rfl, rfl, rfl, rfl⟩

/-- A text that is a single expression is a program with this expression as its only statement. Whatever
was done in a session before, evaluating the text as an expression and running it as a program give the same
value or the same failure, print the same and leave the same scopes. -/
theorem single_expression {source filename : String} {e : Node}
    (h : parseExpression source filename = .ok e) (filename' : String) :
    parseProgram source filename' = .ok [e] ∧
      ∀ s : Session,
        (s.runSource source filename').1 = (s.evalExpression source).1 ∧
          (s.evalExpression source).2.Agrees (s.runSource source filename').2 := by
  have hread := parseExpression_eq_ok_iff.mp h
  have hprogram : parseProgram source filename' = .ok [e] :=
    parseProgram_eq_ok_iff.mpr (Reader.readStatements_of_readExpression hread)
  refine ⟨hprogram, fun s => ?_⟩
  have hself : s.Agrees s := ⟨rfl, rfl, rfl⟩
  have hrun := hself.runParsed filename' [e]
  rw [← hprogram] at hrun
  exact (shows_evalExpression s (parseExpression_eq_ok_iff.mpr hread)).alike hrun

/-- A comparison of two names that start with keywords, in a session that binds neither. -/
theorem single_expression_unbound :
    let s := fresh ⟨Files.empty, false, .ofCalls 1000⟩
    let e : Node := .binary .equal (.var "letter") (.var "iffy")
    let unbound : Problem := .failure (.runtime (.undefinedVariable "letter"))
    parseExpression "letter==iffy" "<input>" = .ok e ∧
      parseProgram "letter==iffy" "<string>" = .ok [e] ∧
        (s.evalExpression "letter==iffy").1 = .error unbound ∧
          (s.runSource "letter==iffy" "<string>").1 = .error unbound := by
  intro s e unbound
  have h : parseExpression "letter==iffy" "<input>" = .ok e := rfl
  obtain ⟨hprogram, hruns⟩ := single_expression h "<string>"
  have hvalue : (s.evalExpression "letter==iffy").1 = .error unbound := by
    have hlookup : freshStore.lookup? globalScope "letter" = Option.none := Store.lookup?_root [] _
    simp [s, e, unbound, evalExpression, h, perform, fresh, Node.eval, Host.calls, Stack.ofCalls,
      Node.evalWithin, Node.evalWith, Eval.bind_run, Eval.lookup, hlookup]
  exact ⟨h, hprogram, hvalue, (hruns s).1.trans hvalue⟩

end Session

end Kestrel
