import Kestrel.Proofs.Written.Precedence
import Kestrel.Proofs.Written.Token

/-!
# The grammar

The grammar of the language as a table of rules, apart from any way to read it. It is ambiguous: no
sign has to stand between two statements, so some rows of tokens are one statement as well as two.

* `Terminal`, `Phrase`, `Symbol` — kinds of token, and the phrases made of them;
* `rules` — for each phrase what it may consist of;
* `Derives` — a row of tokens consists of these symbols;
* `Followed` — a row of tokens of one kind with another row behind it.
-/

namespace Kestrel.Written

open Reader

/-! ### Symbols -/

/-- A kind of token. -/
inductive Terminal where
  | int
  | string
  | name
  | keyword (k : Keyword)
  | sign (s : Sign)
  deriving DecidableEq, Repr

/-- The kind of a token. -/
def Token.terminal : Token → Terminal
  | int _ => .int
  | string _ => .string
  | name _ => .name
  | keyword k => .keyword k
  | sign s => .sign s

@[simp] theorem Token.terminal_eq_keyword {t : Token} {k : Keyword} :
    t.terminal = .keyword k ↔ t = .keyword k := by
  cases t <;> simp [Token.terminal]

@[simp] theorem Token.terminal_eq_sign {t : Token} {s : Sign} :
    t.terminal = .sign s ↔ t = .sign s := by
  cases t <;> simp [Token.terminal]

/-- A phrase of the language. -/
inductive Phrase where
  | program
  | statement
  /-- an assignment or an expression -/
  | simple
  | function
  /-- the parameters of a function -/
  | names
  | moreNames
  | loop
  | conditional
  /-- what follows the first branch of a condition -/
  | otherwise
  | block
  | expr
  /-- an expression whose outermost operators are in this row of the table, or in a later one -/
  | tier (row : Nat)
  | unary
  | primary
  /-- the arguments of a call -/
  | args
  | moreArgs
  deriving DecidableEq, Repr

/-- A token or a phrase. -/
inductive Symbol where
  /-- a token of this kind -/
  | token (a : Terminal)
  /-- this phrase -/
  | phrase (x : Phrase)
  deriving DecidableEq, Repr

instance : Coe Keyword Symbol := ⟨fun k => .token (.keyword k)⟩

instance : Coe Sign Symbol := ⟨fun s => .token (.sign s)⟩

instance : Coe Phrase Symbol := ⟨.phrase⟩

/-! ### Rules -/

/-- What a primary expression without parentheses around it consists of: a literal, one of the
functions that are keywords, a call or a name. -/
def operandRules : List (List Symbol) := [
  [.token .int],
  [.token .string],
  [Keyword.true],
  [Keyword.false],
  [Keyword.none],
  [Keyword.print, Sign.openParen, Phrase.expr, Sign.closeParen],
  [Keyword.readFile, Sign.openParen, Phrase.expr, Sign.closeParen],
  [Keyword.split, Sign.openParen, Phrase.expr, Sign.comma, Phrase.expr, Sign.closeParen],
  [.token .name, Sign.openParen, Phrase.args, Sign.closeParen],
  [.token .name]]

/-- What each phrase may consist of. -/
def rules : Phrase → List (List Symbol)
  | .program => [[], [Phrase.statement, Phrase.program]]
  | .statement => [[Phrase.function], [Phrase.loop], [Phrase.conditional], [Phrase.block],
    [Phrase.simple], [Phrase.simple, Sign.semicolon]]
  | .simple => [[Keyword.let, .token .name, Sign.assign, Phrase.expr],
    [.token .name, Sign.assign, Phrase.expr], [Phrase.expr]]
  | .function => [[Keyword.function, .token .name, Sign.openParen, Phrase.names, Sign.closeParen,
    Phrase.block]]
  | .names => [[], [.token .name, Phrase.moreNames]]
  | .moreNames => [[], [Sign.comma, .token .name, Phrase.moreNames]]
  | .loop => [[Keyword.for, Sign.openParen, .token .name, Keyword.in, Phrase.expr, Sign.range,
    Phrase.expr, Sign.closeParen, Phrase.block]]
  | .conditional => [[Keyword.if, Sign.openParen, Phrase.expr, Sign.closeParen, Phrase.block,
    Phrase.otherwise]]
  | .otherwise => [[], [Keyword.else, Phrase.conditional], [Keyword.else, Phrase.block]]
  | .block => [[Sign.openBrace, Phrase.program, Sign.closeBrace]]
  | .expr => [[Phrase.tier 0], [Phrase.tier 0, Sign.question, Phrase.expr, Sign.colon, Phrase.expr]]
  | .tier row =>
    match precedence[row]? with
    | some ops => [Phrase.tier (row + 1)] ::
        ops.map fun op => [Phrase.tier row, Sign.binary op, Phrase.tier (row + 1)]
    | none => [[Phrase.unary]]
  | .unary => [[Phrase.primary], [Sign.binary .sub, Phrase.unary], [Sign.bang, Phrase.unary]]
  | .primary => [Sign.openParen, Phrase.expr, Sign.closeParen] :: operandRules
  | .args => [[], [Phrase.expr, Phrase.moreArgs]]
  | .moreArgs => [[], [Sign.comma, Phrase.expr, Phrase.moreArgs]]

/-- The tokens consist of these symbols. -/
inductive Derives : List Symbol → List Token → Prop where
  | nil : Derives [] []
  | token {a : Terminal} {t : Token} {α : List Symbol} {us : List Token} (ht : t.terminal = a)
    (hus : Derives α us) : Derives (.token a :: α) (t :: us)
  | phrase {x : Phrase} {β α : List Symbol} {us vs : List Token} (hβ : β ∈ rules x)
    (hus : Derives β us) (hvs : Derives α vs) : Derives (.phrase x :: α) (us ++ vs)

/-- The tokens are a program. -/
def IsProgram (ts : List Token) : Prop := Derives [Phrase.program] ts

/-! ### Derivations -/

section Derives

variable {a : Terminal} {x : Phrase} {α β : List Symbol} {ts us vs : List Token}

@[simp] theorem derives_nil_iff : Derives [] ts ↔ ts = [] := by
  constructor
  · rintro ⟨⟩
    rfl
  · rintro rfl
    exact .nil

theorem derives_token_iff :
    Derives (.token a :: α) ts ↔ ∃ t us, ts = t :: us ∧ t.terminal = a ∧ Derives α us := by
  constructor
  · rintro (_ | ⟨ht, hus⟩)
    exact ⟨_, _, rfl, ht, hus⟩
  · rintro ⟨t, us, rfl, ht, hus⟩
    exact .token ht hus

theorem Derives.rule (hβ : β ∈ rules x) (h : Derives β ts) : Derives [.phrase x] ts := by
  have hnil := Derives.phrase hβ h .nil
  rwa [List.append_nil] at hnil

theorem Derives.exists_rule (h : Derives [.phrase x] ts) : ∃ β ∈ rules x, Derives β ts := by
  cases h with
  | phrase hβ hus hvs =>
    rw [derives_nil_iff] at hvs
    subst hvs
    rw [List.append_nil]
    exact ⟨_, hβ, hus⟩

theorem derives_rule_iff : Derives [.phrase x] ts ↔ ∃ β ∈ rules x, Derives β ts :=
  ⟨Derives.exists_rule, fun ⟨_, hβ, h⟩ => h.rule hβ⟩

theorem derives_append_iff :
    Derives (α ++ β) ts ↔ ∃ us vs, ts = us ++ vs ∧ Derives α us ∧ Derives β vs := by
  constructor
  · intro h
    induction α generalizing ts with
    | nil => exact ⟨[], ts, rfl, .nil, h⟩
    | cons s α ih =>
      cases h with
      | token ht hus =>
        obtain ⟨us, vs, rfl, hus, hvs⟩ := ih hus
        exact ⟨_ :: us, vs, rfl, .token ht hus, hvs⟩
      | phrase hβ hus hvs =>
        obtain ⟨us, vs, rfl, hus', hvs⟩ := ih hvs
        exact ⟨_ ++ us, vs, (List.append_assoc ..).symm, .phrase hβ hus hus', hvs⟩
  · rintro ⟨us, vs, rfl, hus, hvs⟩
    induction hus with
    | nil => exact hvs
    | token ht _ ih => exact .token ht ih
    | phrase hβ hus _ _ ih =>
      rw [List.append_assoc]
      exact .phrase hβ hus ih

theorem derives_phrase_iff :
    Derives (.phrase x :: α) ts ↔ ∃ us vs, ts = us ++ vs ∧ Derives [.phrase x] us ∧ Derives α vs :=
  derives_append_iff (α := [.phrase x])

/-- Only the kinds of the tokens matter. -/
theorem Derives.congr (h : Derives α us) (hkinds : us.map Token.terminal = vs.map Token.terminal) :
    Derives α vs := by
  induction h generalizing vs with
  | nil =>
    rw [List.map_nil, eq_comm, List.map_eq_nil_iff] at hkinds
    exact hkinds ▸ .nil
  | token ht hus ih =>
    rw [List.map_cons, eq_comm, List.map_eq_cons_iff] at hkinds
    obtain ⟨t', us', rfl, ht', hus'⟩ := hkinds
    exact .token (ht'.trans ht) (ih hus'.symm)
  | phrase hβ hus hvs ihus ihvs =>
    rw [List.map_append, eq_comm, List.map_eq_append_iff] at hkinds
    obtain ⟨us', vs', rfl, hus', hvs'⟩ := hkinds
    exact .phrase hβ (ihus hus'.symm) (ihvs hvs'.symm)

end Derives

/-! ### What follows -/

/-- Tokens that satisfy `l`, and behind them tokens that satisfy `f`. -/
def Followed (l f : List Token → Prop) (ts : List Token) : Prop :=
  ∃ us vs, ts = us ++ vs ∧ l us ∧ f vs

section Followed

variable {a : Terminal} {x : Phrase} {α β : List Symbol} {l f : List Token → Prop} {t : Token}
  {ts us : List Token}

@[simp] theorem followed_nil_iff : Followed (Derives []) f ts ↔ f ts := by
  constructor
  · rintro ⟨us, vs, rfl, hus, hvs⟩
    rw [derives_nil_iff] at hus
    subst hus
    exact hvs
  · intro h
    exact ⟨[], ts, rfl, .nil, h⟩

theorem followed_token_iff :
    Followed (Derives (.token a :: α)) f ts ↔
      ∃ t us, ts = t :: us ∧ t.terminal = a ∧ Followed (Derives α) f us := by
  constructor
  · rintro ⟨us, vs, rfl, hus, hvs⟩
    obtain ⟨t, us, rfl, ht, hus⟩ := derives_token_iff.mp hus
    exact ⟨t, us ++ vs, rfl, ht, us, vs, rfl, hus, hvs⟩
  · rintro ⟨t, _, rfl, ht, us, vs, rfl, hus, hvs⟩
    exact ⟨t :: us, vs, rfl, .token ht hus, hvs⟩

/-- The first token decides whether a terminal stands at the start. -/
theorem followed_cons_iff :
    Followed (Derives (.token a :: α)) f (t :: us) ↔ t.terminal = a ∧ Followed (Derives α) f us := by
  rw [followed_token_iff]
  constructor
  · rintro ⟨t', us', heq, h⟩
    cases heq
    exact h
  · intro h
    exact ⟨t, us, rfl, h⟩

theorem followed_assoc {m : List Token → Prop} :
    Followed (Followed l m) f ts ↔ Followed l (Followed m f) ts := by
  constructor
  · rintro ⟨_, vs, rfl, ⟨us, us', rfl, hus, hus'⟩, hvs⟩
    exact ⟨us, us' ++ vs, List.append_assoc .., hus, us', vs, rfl, hus', hvs⟩
  · rintro ⟨us, _, rfl, hus, us', vs, rfl, hus', hvs⟩
    exact ⟨us ++ us', vs, (List.append_assoc ..).symm, ⟨us, us', rfl, hus, hus'⟩, hvs⟩

theorem followed_or {m : List Token → Prop} :
    Followed (fun us => l us ∨ m us) f ts ↔ Followed l f ts ∨ Followed m f ts := by
  constructor
  · rintro ⟨us, vs, rfl, hl | hm, hvs⟩
    · exact .inl ⟨us, vs, rfl, hl, hvs⟩
    · exact .inr ⟨us, vs, rfl, hm, hvs⟩
  · rintro (⟨us, vs, rfl, hl, hvs⟩ | ⟨us, vs, rfl, hm, hvs⟩)
    · exact ⟨us, vs, rfl, .inl hl, hvs⟩
    · exact ⟨us, vs, rfl, .inr hm, hvs⟩

theorem Followed.mono {f' : List Token → Prop} (h : Followed l f ts) (hf : ∀ us, f us → f' us) :
    Followed l f' ts := by
  obtain ⟨us, vs, rfl, hus, hvs⟩ := h
  exact ⟨us, vs, rfl, hus, hf vs hvs⟩

theorem followed_or_right {m : List Token → Prop} :
    Followed l (fun us => m us ∨ f us) ts ↔ Followed l m ts ∨ Followed l f ts := by
  constructor
  · rintro ⟨us, vs, rfl, hus, hm | hf⟩
    · exact .inl ⟨us, vs, rfl, hus, hm⟩
    · exact .inr ⟨us, vs, rfl, hus, hf⟩
  · rintro (h | h)
    · exact h.mono fun _ => .inl
    · exact h.mono fun _ => .inr

/-- Symbols in a row are followed one after another. -/
theorem derives_append_eq : Derives (α ++ β) = Followed (Derives α) (Derives β) :=
  funext fun _ => propext derives_append_iff

theorem followed_append_iff :
    Followed (Derives (α ++ β)) f ts ↔ Followed (Derives α) (Followed (Derives β) f) ts := by
  rw [derives_append_eq, followed_assoc]

theorem followed_phrase_iff :
    Followed (Derives (.phrase x :: α)) f ts ↔
      Followed (Derives [.phrase x]) (Followed (Derives α) f) ts :=
  followed_append_iff (α := [.phrase x])

theorem Followed.exists_rule (h : Followed (Derives [.phrase x]) f ts) :
    ∃ β ∈ rules x, Followed (Derives β) f ts := by
  obtain ⟨us, vs, rfl, hus, hvs⟩ := h
  obtain ⟨β, hβ, hus⟩ := hus.exists_rule
  exact ⟨β, hβ, us, vs, rfl, hus, hvs⟩

end Followed

end Kestrel.Written
