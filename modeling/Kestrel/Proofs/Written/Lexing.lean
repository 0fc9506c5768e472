import Kestrel.Proofs.Written.Position

/-!
# Reading one token

Each lexical rule of the reader reads one token of a written text, and here is said what it makes of
it: `takes_keyword`, `takes_identifier`, `takes_symbol`, `takes_assignSign`, `takes_unaryOp`,
`takes_binaryOp`, `takes_integer` and `takes_string`.

The space behind a token is what makes this true. It ends names and integers, it is no letter, so a
keyword is one, and it keeps `+` from `++`, `=` from `==` and `>` from `>=`.
-/

namespace Kestrel.Written

open Reader Text

/-! ### What a space separates -/

/-- A word without spaces starts a text only where it starts the first token. -/
theorem isPrefixOf_append_gapped {word : List Char} (h : ' ' ∉ word) (cs : List Char)
    (us : List Token) : word.isPrefixOf (cs ++ gapped us) = word.isPrefixOf cs := by
  induction word generalizing cs with
  | nil => simp
  | cons a as ih =>
    have ha : ¬a = ' ' := fun e => h (e ▸ List.mem_cons_self ..)
    cases cs with
    | nil => cases us <;> simp [List.isPrefixOf, ha]
    | cons c cs => simp [List.isPrefixOf, ih (fun hm => h (List.mem_cons_of_mem _ hm))]

/-- The characters of a class that a space does not belong to end with the token. -/
theorem takeWhile_append_gapped {p : Char → Bool} (hspace : p ' ' = false) {cs : List Char}
    (h : cs.all p = true) (us : List Token) : (cs ++ gapped us).takeWhile p = cs := by
  have hgap : (gapped us).takeWhile p = [] := by
    cases us <;> simp [hspace]
  rw [List.takeWhile_append_of_pos (by simpa using h), hgap, List.append_nil]

/-- No token is started by a word whose first character is not the token's. -/
theorem isPrefixOf_eq_false_of_head {word cs : List Char} {p : Char → Bool}
    (hword : word.head?.any p = true) (hcs : cs.head?.any p = false) : word.isPrefixOf cs = false := by
  cases word with
  | nil => simp at hword
  | cons a as =>
    cases cs with
    | nil => rfl
    | cons c cs =>
      have hac : ¬a = c := by
        rintro rfl
        simp only [List.head?_cons, Option.any_some] at hword hcs
        rw [hword] at hcs
        cases hcs
      simp [List.isPrefixOf, hac]

/-! ### Words -/

theorem space_not_mem_keyword (k : Keyword) : ' ' ∉ k.text.toList := by
  cases k <;> decide

/-- No keyword starts another one. -/
theorem isPrefixOf_keyword (k l : Keyword) :
    k.text.toList.isPrefixOf l.text.toList = decide (k = l) := by
  cases k <;> cases l <;> decide

/-- A token that is no word does not start with a letter. -/
theorem head_not_isNameStart {t : Token} (h : t.valid = true) (hname : ∀ x, t ≠ .name x)
    (hkeyword : ∀ k, t ≠ .keyword k) : t.spell.head?.any isNameStart = false := by
  cases t with
  | int digits =>
    cases digits with
    | nil => rfl
    | cons d ds =>
      simp only [Token.valid, List.all_cons, Bool.and_eq_true] at h
      refine Bool.eq_false_iff.mpr fun hd => ?_
      have hdigit := not_isDecimalDigit_of_isNameStart (c := d) hd
      rw [h.1.2.1] at hdigit
      cases hdigit
  | string raw => exact rfl
  | name x => exact absurd rfl (hname x)
  | keyword k => exact absurd rfl (hkeyword k)
  | sign s =>
    obtain ⟨c, cs, hs, -, -, hc, -⟩ := head_sign s
    simp [Token.spell, hs, hc]

/-- A name is started by a keyword only if it goes on behind it. -/
theorem keyword_ne_name {x : String} (h : isName x.toList = true) (k : Keyword) :
    x.toList ≠ k.text.toList := by
  intro e
  simp only [isName, Bool.and_eq_true, Bool.not_eq_true', List.any_eq_false] at h
  exact h.2 k (Keyword.mem_all k) (by simp [e])

/-- Where a token stands a keyword is found exactly if it is the token. -/
theorem keywordAt_eq {c : Cursor} {t : Token} {us : List Token} (ht : t.valid = true)
    (hrest : c.skip.rest = t.spell ++ gapped us) (hbefore : c.skip.before.any isWordChar = false)
    (k : Keyword) : keywordAt k c.skip = decide (t = .keyword k) := by
  simp only [keywordAt, hrest, hbefore, isPrefixOf_append_gapped (space_not_mem_keyword k)]
  cases t with
  | keyword l =>
    rw [Token.spell, isPrefixOf_keyword]
    by_cases hkl : k = l
    · subst hkl
      have hgap : (gapped us).head?.any isWordChar = false := by
        cases us with
        | nil => rfl
        | cons u us => rfl
      simp [hgap]
    · simp [hkl, Ne.symm hkl]
  | name x =>
    simp only [reduceCtorEq, decide_false]
    cases hprefix : k.text.toList.isPrefixOf (Token.name x).spell with
    | false => rfl
    | true =>
      -- the name goes on with a letter, since it is not the keyword itself
      obtain ⟨more, hmore⟩ := List.isPrefixOf_iff_prefix.mp hprefix
      have hx : x.toList = k.text.toList ++ more := hmore.symm
      have hname : isName x.toList = true := ht
      cases more with
      | nil => exact absurd (by simpa using hx) (keyword_ne_name hname k)
      | cons d ds =>
        have hd : isNameChar d = true := isNameChar_of_isName hname d (by simp [hx])
        simp [Token.spell, hx, isWordChar, hd]
  | int digits =>
    rw [isPrefixOf_eq_false_of_head (isNameStart_head_keyword k)
      (head_not_isNameStart ht (by simp) (by simp))]
    simp
  | string raw =>
    rw [isPrefixOf_eq_false_of_head (isNameStart_head_keyword k)
      (head_not_isNameStart ht (by simp) (by simp))]
    simp
  | sign s =>
    rw [isPrefixOf_eq_false_of_head (isNameStart_head_keyword k)
      (head_not_isNameStart ht (by simp) (by simp))]
    simp

theorem keywordAt_nil {c : Cursor} (h : c.skip.rest = []) (k : Keyword) :
    keywordAt k c.skip = false := by
  have hk : k.text.toList.isPrefixOf [] = false :=
    isPrefixOf_eq_false_of_head (isNameStart_head_keyword k) rfl
  simp [keywordAt, h, hk]

/-- A keyword rule takes its keyword. -/
theorem takes_keyword (k : Keyword) :
    Takes (keyword k) fun t => if t = .keyword k then some () else none := by
  refine takes_of_skip (fun c h => ?_) (fun c t us ht hrest hbefore => ?_)
  · simp [keyword, keywordAt_nil h]
  · rw [keyword, keywordAt_eq ht hrest hbefore]
    by_cases hk : t = .keyword k
    · subst hk
      simp [Token.spell]
    · simp [hk]

/-- What a rule for names makes of a token. -/
def Token.name? : Token → Option String
  | .name x => some x
  | _ => none

/-- The rule for names takes names. -/
theorem takes_identifier : Takes identifier Token.name? := by
  refine takes_of_skip (fun c h => ?_) (fun c t us ht hrest hbefore => ?_)
  · simp [identifier, h]
  · have hany : anyKeywordAt c.skip = Keyword.all.any fun k => decide (t = .keyword k) := by
      simp only [anyKeywordAt, keywordAt_eq ht hrest hbefore]
    rw [identifier, hany, hrest]
    cases t with
    | name x =>
      have hname : isName x.toList = true := ht
      have hall := List.all_eq_true.mpr (isNameChar_of_isName hname)
      obtain ⟨a, as, hx, hhead⟩ := exists_cons_of_isName hname
      have hspace : isNameChar ' ' = false := by decide
      have hnone : (Keyword.all.any fun k => decide (Token.name x = .keyword k)) = false := by
        simp
      have hstart : (x.toList ++ gapped us).head?.any isNameStart = true := by
        rw [hx]
        exact hhead
      simp only [Token.spell, hnone, hstart, takeWhile_append_gapped hspace hall]
      simp [Token.name?]
    | keyword k =>
      have hsome : (Keyword.all.any fun l => decide (Token.keyword k = .keyword l)) = true :=
        List.any_eq_true.mpr ⟨k, Keyword.mem_all k, by simp⟩
      rw [hsome]
      simp [Token.name?]
    | int digits =>
      have hhead := head_not_isNameStart ht (by simp) (by simp)
      have hstart : ((Token.int digits).spell ++ gapped us).head?.any isNameStart = false := by
        obtain ⟨a, as, has, -⟩ := head_spell ht
        rw [has] at hhead ⊢
        exact hhead
      rw [hstart]
      simp [Token.name?]
    | string raw =>
      have hstart : isNameStart '"' = false := by decide
      simp [Token.spell, hstart, Token.name?]
    | sign s =>
      obtain ⟨a, as, has, -, -, ha, -⟩ := head_sign s
      simp [Token.spell, has, ha, Token.name?]

/-! ### Signs -/

/-- A sign that no other sign continues, and which stands for itself alone. -/
def Sign.isPlain : Sign → Bool
  | binary _ | bang | assign => false
  | _ => true

theorem space_not_mem_sign (s : Sign) : ' ' ∉ s.text.toList := by
  cases s with
  | binary op => cases op <;> decide
  | _ => decide

/-- A plain sign starts no other one. -/
theorem isPrefixOf_sign {s : Sign} (h : s.isPlain = true) (r : Sign) :
    s.text.toList.isPrefixOf r.text.toList = decide (s = r) := by
  cases s with
  | binary op => cases h
  | bang => cases h
  | assign => cases h
  | _ => cases r with
    | binary op => cases op <;> decide
    | _ => decide

/-- A token other than a sign does not start like one. -/
theorem isPrefixOf_sign_of_ne {t : Token} (ht : t.valid = true) (hsign : ∀ r, t ≠ .sign r)
    (s : Sign) : s.text.toList.isPrefixOf t.spell = false := by
  obtain ⟨c, cs, hs, -, hquote, hstart, hdigit⟩ := head_sign s
  rw [hs]
  cases t with
  | int digits =>
    refine isPrefixOf_eq_false_of_head (p := fun d => !isDecimalDigit d) (by simp [hdigit]) ?_
    cases digits with
    | nil => rfl
    | cons d ds =>
      simp only [Token.valid, List.all_cons, Bool.and_eq_true] at ht
      simp [Token.spell, ht.1.2.1]
  | string raw =>
    exact isPrefixOf_eq_false_of_head (p := fun d => decide (d ≠ '"')) (by simp [hquote]) rfl
  | name x =>
    refine isPrefixOf_eq_false_of_head (p := fun d => !isNameStart d) (by simp [hstart]) ?_
    have hname : isName x.toList = true := ht
    obtain ⟨a, as, hx, hhead⟩ := exists_cons_of_isName hname
    simp [Token.spell, hx, hhead]
  | keyword k =>
    refine isPrefixOf_eq_false_of_head (p := fun d => !isNameStart d) (by simp [hstart]) ?_
    cases k <;> decide
  | sign r => exact absurd rfl (hsign r)

/-- A plain sign starts a token exactly if it is the token. -/
theorem isPrefixOf_spell {s : Sign} (h : s.isPlain = true) {t : Token} (ht : t.valid = true) :
    s.text.toList.isPrefixOf t.spell = decide (t = .sign s) := by
  cases t with
  | sign r =>
    rw [Token.spell, isPrefixOf_sign h]
    by_cases hr : s = r
    · simp [hr]
    · simp [hr, Ne.symm hr]
  | int digits => simpa using isPrefixOf_sign_of_ne ht (by simp) s
  | string raw => simpa using isPrefixOf_sign_of_ne ht (by simp) s
  | name x => simpa using isPrefixOf_sign_of_ne ht (by simp) s
  | keyword k => simpa using isPrefixOf_sign_of_ne ht (by simp) s

/-- The rule for a plain sign takes it. -/
theorem takes_symbol {s : Sign} (h : s.isPlain = true) :
    Takes (symbol s.text) fun t => if t = .sign s then some () else none := by
  refine takes_of_skip (fun c hc => ?_) (fun c t us ht hrest hbefore => ?_)
  · obtain ⟨a, as, hs, -⟩ := head_sign s
    simp [symbol, hc, hs]
  · rw [symbol, hrest, isPrefixOf_append_gapped (space_not_mem_sign s), isPrefixOf_spell h ht]
    by_cases ht : t = .sign s
    · subst ht
      simp [Token.spell]
    · simp [ht]

/-- The rule for the sign of an assignment takes it, and not the sign of equality. -/
theorem takes_assignSign : Takes assignSign fun t => if t = .sign .assign then some () else none := by
  refine takes_of_skip (fun c hc => ?_) (fun c t us ht hrest hbefore => ?_)
  · simp [assignSign, hc]
  · rw [assignSign, hrest, isPrefixOf_append_gapped (by decide), isPrefixOf_append_gapped (by decide)]
    by_cases hsign : ∃ r, t = .sign r
    · obtain ⟨r, rfl⟩ := hsign
      cases r with
      | binary op => cases op <;> rfl
      | _ => rfl
    · have hne : ∀ r, t ≠ .sign r := fun r e => hsign ⟨r, e⟩
      have hassign : "=".toList.isPrefixOf t.spell = false := isPrefixOf_sign_of_ne ht hne .assign
      rw [hassign]
      simp [hne .assign]

/-- What a rule for operators in front of an operand makes of a token. -/
def Token.unary? : Token → Option UnaryOp
  | .sign (.binary .sub) => some .neg
  | .sign .bang => some .not
  | _ => none

theorem Token.unary?_eq_some {t : Token} {op : UnaryOp} :
    t.unary? = some op ↔ t = .sign (unarySign op) := by
  constructor
  · intro h
    unfold Token.unary? at h
    split at h <;> cases h <;> rfl
  · rintro rfl
    cases op <;> rfl

/-- The rule for operators in front of an operand takes the minus sign and the exclamation mark. -/
theorem takes_unaryOp : Takes unaryOp Token.unary? := by
  refine takes_of_skip (fun c hc => ?_) (fun c t us ht hrest hbefore => ?_)
  · simp [unaryOp, hc]
  · rw [unaryOp, hrest]
    by_cases hsign : ∃ r, t = .sign r
    · obtain ⟨r, rfl⟩ := hsign
      cases r with
      | binary op => cases op <;> rfl
      | _ => rfl
    · have hne : ∀ r, t ≠ .sign r := fun r e => hsign ⟨r, e⟩
      have hminus : "-".toList.isPrefixOf t.spell = false :=
        isPrefixOf_sign_of_ne ht hne (.binary .sub)
      have hbang : "!".toList.isPrefixOf t.spell = false := isPrefixOf_sign_of_ne ht hne .bang
      -- the rule looks at one character only, so the token is opened up to its first one
      have hunary : t.unary? = none := by
        cases t <;> first | rfl | exact absurd rfl (hne _)
      obtain ⟨a, as, has, -⟩ := head_spell ht
      rw [has] at hminus hbang ⊢
      have hm : a ≠ '-' := by rintro rfl; simp at hminus
      have hb : a ≠ '!' := by rintro rfl; simp at hbang
      rw [hunary, List.cons_append]
      split
      · rename_i heq
        exact absurd (List.cons.inj heq).1 hm
      · rename_i heq
        exact absurd (List.cons.inj heq).1 hb
      · rfl

/-- What a rule for operators between operands makes of a token. -/
def Token.binary? : Token → Option BinaryOp
  | .sign (.binary op) => some op
  | _ => none

theorem Token.binary?_eq_some {t : Token} {op : BinaryOp} :
    t.binary? = some op ↔ t = .sign (.binary op) := by
  constructor
  · intro h
    unfold Token.binary? at h
    split at h <;> cases h
    rfl
  · rintro rfl
    rfl

/-- The rule for operators between operands takes these operators. -/
theorem takes_binaryOp : Takes binaryOp Token.binary? := by
  refine takes_of_skip (fun c hc => ?_) (fun c t us ht hrest hbefore => ?_)
  · simp only [binaryOp, hc]
    rfl
  · -- the operators are tried longest first, so `++` is found before `+`
    have hfind : operatorsBySymbol.find? (·.symbol.toList.isPrefixOf c.skip.rest) = t.binary? := by
      have hspace : ∀ op : BinaryOp, op.symbol.toList.isPrefixOf c.skip.rest =
          op.symbol.toList.isPrefixOf t.spell := fun op => by
        rw [hrest]
        exact isPrefixOf_append_gapped (space_not_mem_sign (.binary op)) _ _
      simp only [hspace]
      by_cases hsign : ∃ r, t = .sign r
      · obtain ⟨r, rfl⟩ := hsign
        cases r with
        | binary op => cases op <;> rfl
        | _ => rfl
      · have hne : ∀ r, t ≠ .sign r := fun r e => hsign ⟨r, e⟩
        have hnone : ∀ op : BinaryOp, op.symbol.toList.isPrefixOf t.spell = false :=
          fun op => isPrefixOf_sign_of_ne ht hne (.binary op)
        have hbinary : t.binary? = none := by
          cases t <;> first | rfl | exact absurd rfl (hne _)
        rw [hbinary]
        exact List.find?_eq_none.mpr fun op _ => by simp [hnone op]
    rw [binaryOp, hfind]
    cases hop : t.binary? with
    | none => rfl
    | some op =>
      rw [Token.binary?_eq_some.mp hop]
      rfl

/-! ### Literals -/

/-- The number that digits stand for. -/
def digitsValue (digits : List Char) : Nat :=
  ofDigits (digits.filterMap decimalDigit?)

/-- What a rule for integers makes of a token. -/
def Token.int? : Token → Option Nat
  | .int digits => some (digitsValue digits)
  | _ => none

theorem length_filterMap_decimalDigit {cs : List Char} (h : cs.all isDecimalDigit = true) :
    (cs.filterMap decimalDigit?).length = cs.length := by
  induction cs with
  | nil => rfl
  | cons c cs ih =>
    simp only [List.all_cons, Bool.and_eq_true, isDecimalDigit] at h
    obtain ⟨d, hd⟩ := Option.isSome_iff_exists.mp h.1
    simp [hd, ih h.2]

/-- A token other than an integer does not start with a digit. -/
theorem takeWhile_isDecimalDigit_eq_nil {t : Token} (ht : t.valid = true)
    (hint : ∀ ds, t ≠ .int ds) (us : List Token) :
    (t.spell ++ gapped us).takeWhile isDecimalDigit = [] := by
  have hstop : ∀ {a : Char} {as : List Char}, isDecimalDigit a = false →
      (a :: as).takeWhile isDecimalDigit = [] := fun ha => by simp [ha]
  cases t with
  | int ds => exact absurd rfl (hint ds)
  | string raw => exact hstop (by decide)
  | name x =>
    have hname : isName x.toList = true := ht
    obtain ⟨a, as, hx, hhead⟩ := exists_cons_of_isName hname
    simp only [Token.spell, hx, List.cons_append]
    exact hstop (not_isDecimalDigit_of_isNameStart hhead)
  | keyword k => cases k <;> exact hstop (by decide)
  | sign s =>
    obtain ⟨a, as, has, -, -, -, ha⟩ := head_sign s
    simp only [Token.spell, has, List.cons_append]
    exact hstop ha

/-- The rule for integers takes integers. -/
theorem takes_integer : Takes integer Token.int? := by
  refine takes_of_skip (fun c hc => ?_) (fun c t us ht hrest hbefore => ?_)
  · simp [integer, hc]
  · by_cases hint : ∃ ds, t = .int ds
    · obtain ⟨ds, rfl⟩ := hint
      simp only [Token.valid, Bool.and_eq_true, decide_eq_true_eq] at ht
      obtain ⟨⟨hne, hall⟩, hlength⟩ := ht
      have hspace : isDecimalDigit ' ' = false := by decide
      -- so no digit is lost, and the limit on their number holds of the digits that are read
      have hlen := length_filterMap_decimalDigit hall
      have hvalue : ofDigits? (ds.filterMap decimalDigit?) = some (digitsValue ds) := by
        have hlimit : digitLimit = 4300 := rfl
        rw [ofDigits?, if_pos (by omega)]
        rfl
      rw [integer, hrest, Token.spell, takeWhile_append_gapped hspace hall]
      cases hds : ds.filterMap decimalDigit? with
      | nil =>
        rw [hds] at hlen
        simp [List.eq_nil_of_length_eq_zero hlen.symm] at hne
      | cons d more =>
        rw [hds] at hvalue hlen
        simp [hvalue, Token.int?, hlen]
    · have hne : ∀ ds, t ≠ .int ds := fun ds e => hint ⟨ds, e⟩
      have hnone : t.int? = none := by
        cases t <;> first | rfl | exact absurd rfl (hne _)
      rw [integer, hrest, takeWhile_isDecimalDigit_eq_nil ht hne, hnone]
      rfl

/-- What a rule for texts makes of a token. -/
def Token.string? : Token → Option (List Char)
  | .string raw => some (unescapeFrom 0 raw)
  | _ => none

/-- What stands between quotes ends with the closing one. -/
theorem quoted?_append {raw : List Char} (h : isQuotable raw = true) (rest : List Char) :
    quoted? (raw ++ '"' :: rest) = some raw := by
  fun_induction isQuotable raw with
  | case1 => simp [quoted?]
  | case2 c cs ih =>
    simp only [Bool.and_eq_true, decide_eq_true_eq] at h
    simp [quoted?, h.1, ih h.2]
  | case3 c cs hescape ih =>
    simp only [Bool.and_eq_true, decide_eq_true_eq] at h
    obtain ⟨⟨⟨⟨hquote, hslash⟩, hfeed⟩, hreturn⟩, hcs⟩ := h
    -- a backslash that ends the text would escape the quote, but it is not quotable
    rw [List.cons_append, quoted?]
    · simp [hquote, hslash, hfeed, hreturn, ih hcs]
    · intro d ds hd
      exact absurd hd hslash

/-- The rule for texts takes texts. -/
theorem takes_string : Takes string Token.string? := by
  refine takes_of_skip (fun c hc => ?_) (fun c t us ht hrest hbefore => ?_)
  · simp [string, hc]
  · by_cases hstring : ∃ raw, t = .string raw
    · obtain ⟨raw, rfl⟩ := hstring
      have hraw : (Token.string raw).spell ++ gapped us = '"' :: (raw ++ '"' :: gapped us) := by
        simp [Token.spell]
      rw [string, hrest, hraw]
      simp only [quoted?_append (show isQuotable raw = true from ht)]
      simp [Token.string?, Token.spell]
    · have hne : ∀ raw, t ≠ .string raw := fun raw e => hstring ⟨raw, e⟩
      have hnone : t.string? = none := by
        cases t <;> first | rfl | exact absurd rfl (hne _)
      obtain ⟨a, as, has, -⟩ := head_spell ht
      have hquote : a ≠ '"' := by
        rintro rfl
        cases t with
        | int ds =>
          simp only [Token.spell] at has
          simp [Token.valid, has, show isDecimalDigit '"' = false by decide] at ht
        | string raw => exact absurd rfl (hne raw)
        | name x =>
          simp only [Token.spell] at has
          simp [Token.valid, isName, has, show isNameStart '"' = false by decide] at ht
        | keyword k =>
          have hstart := isNameStart_head_keyword k
          simp only [Token.spell] at has
          rw [has] at hstart
          exact absurd (show isNameStart '"' = true from hstart) (by decide)
        | sign s =>
          obtain ⟨b, bs, hbs, -, hb, -⟩ := head_sign s
          rw [Token.spell, hbs] at has
          exact hb (List.cons.inj has).1
      rw [string, hrest, has, hnone, List.cons_append]
      split
      · rename_i heq
        exact absurd (List.cons.inj heq).1 hquote
      · rfl

end Kestrel.Written
