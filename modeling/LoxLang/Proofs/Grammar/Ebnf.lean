import LoxLang.Proofs.Grammar.Soundness

/-!
# The grammar as it is documented

The rules that the language is described by, in extended Backus-Naur form, and what token lists they
derive. They say nothing of trees, identities or limits.

The rule of an assignment to an element asks for an index between the brackets. `syntaxRules` takes it as
a parameter, so that the same rules are there with the index left to choice. What sets the two apart can
be seen from three tokens in a row: an opening bracket, a closing one, and an assignment operator. A scan
that remembers how much of this it has just seen shows that the rules with the index never derive it.
-/

namespace LoxLang

/-- What a rule may ask of one token. -/
inductive Terminal where
  | mark (mark : Mark)
  | keyword (keyword : Keyword)
  | identifier
  | int
  | float
  | string
  | assignOperator
  | eof
deriving DecidableEq, Repr

/-- The kind of token is what the rule asks for. -/
def Terminal.Fits : Terminal → TokenKind → Prop
  | mark m, kind => kind = .mark m
  | keyword k, kind => kind = .keyword k
  | identifier, kind => kind = .identifier
  | int, kind => ∃ value, kind = .int value
  | float, kind => ∃ value, kind = .float value
  | string, kind => ∃ value, kind = .string value
  | assignOperator, kind => (AssignOperator.ofToken? kind).isSome
  | eof, kind => kind = .eof

/-- The left sides of the rules. -/
inductive Nonterminal where
  | program
  | declaration
  | classDecl
  | funDecl
  | varDecl
  | statement
  | exprStmt
  | forStmt
  | ifStmt
  | returnStmt
  | whileStmt
  | block
  | function
  | parameters
  | expression
  | assignment
  | level (level : Level)
  | unary
  | power
  | call
  | arguments
  | primary
deriving DecidableEq, Repr

/-- The right side of a rule. -/
inductive Ebnf where
  | terminal (terminal : Terminal)
  | rule (name : Nonterminal)
  | seq (before after : Ebnf)
  | either (this that : Ebnf)
  | optional (inner : Ebnf)
  | many (inner : Ebnf)
deriving DecidableEq, Repr

namespace Ebnf

/-- One phrase after the other is written `++`. -/
instance : Append Ebnf := ⟨seq⟩

/-- A choice between two phrases is written `|||`. -/
instance : OrOp Ebnf := ⟨either⟩

/-- A mark. -/
abbrev mark (m : Mark) : Ebnf := terminal (.mark m)

/-- A keyword. -/
abbrev keyword (k : Keyword) : Ebnf := terminal (.keyword k)

/-- An identifier. -/
abbrev identifier : Ebnf := terminal .identifier

/-- An expression. -/
abbrev expression : Ebnf := rule .expression

/-- One or more phrases of a kind with a mark between them. -/
def separated (inner : Ebnf) (separator : Mark) : Ebnf := inner ++ many (mark separator ++ inner)

/-- What may follow a primary expression: arguments, an index or a property. -/
def selector : Ebnf :=
  mark .leftParen ++ optional (rule .arguments) ++ mark .rightParen |||
    mark .leftBracket ++ optional (rule .arguments) ++ mark .rightBracket |||
    mark .dot ++ identifier

end Ebnf

open Ebnf in
/-- The operators of a level. -/
def Level.operators : Level → Ebnf
  | disjunction => keyword .orWord
  | conjunction => keyword .andWord
  | equality => mark .bangEqual ||| mark .equalEqual
  | comparison => mark .greater ||| mark .greaterEqual ||| mark .less ||| mark .lessEqual
  | bitOr => mark .bitOr
  | bitXor => mark .bitXor
  | bitAnd => mark .bitAnd
  | shift => mark .shiftLeft ||| mark .shiftRight
  | additive => mark .minus ||| mark .plus
  | multiplicative => mark .slash ||| mark .star ||| mark .percent

/-- What the operands of a level are. -/
def Nonterminal.operand : Option Level → Nonterminal
  | some tighter => level tighter
  | none => unary

open Ebnf in
/-- The rules of the language. In the brackets of an assignment to an element stands `index`. -/
def syntaxRules (index : Ebnf) : Nonterminal → Ebnf
  | .program => many (rule .declaration) ++ terminal .eof
  | .declaration => rule .classDecl ||| rule .funDecl ||| rule .varDecl ||| rule .statement
  | .classDecl =>
    keyword .classWord ++ identifier ++ optional (mark .less ++ identifier) ++ mark .leftBrace ++
      many (rule .function) ++ mark .rightBrace
  | .funDecl => keyword .funWord ++ rule .function
  | .varDecl =>
    keyword .varWord ++ identifier ++ optional (mark .equal ++ expression) ++ mark .semicolon
  | .statement =>
    rule .exprStmt ||| rule .forStmt ||| rule .ifStmt ||| rule .returnStmt ||| rule .whileStmt |||
      rule .block
  | .exprStmt => expression ++ mark .semicolon
  | .forStmt =>
    keyword .forWord ++ mark .leftParen ++
      (rule .varDecl ||| rule .exprStmt ||| mark .semicolon) ++
      optional expression ++ mark .semicolon ++ optional expression ++ mark .rightParen ++
      rule .statement
  | .ifStmt =>
    keyword .ifWord ++ mark .leftParen ++ expression ++ mark .rightParen ++ rule .statement ++
      optional (keyword .elseWord ++ rule .statement)
  | .returnStmt => keyword .returnWord ++ optional expression ++ mark .semicolon
  | .whileStmt =>
    keyword .whileWord ++ mark .leftParen ++ expression ++ mark .rightParen ++ rule .statement
  | .block => mark .leftBrace ++ many (rule .declaration) ++ mark .rightBrace
  | .function =>
    identifier ++ mark .leftParen ++ optional (rule .parameters) ++ mark .rightParen ++ rule .block
  | .parameters => separated identifier .comma
  | .expression => rule .assignment
  | .assignment =>
    optional (rule .call ++ mark .dot) ++ identifier ++ terminal .assignOperator ++ rule .assignment |||
      rule .call ++ mark .leftBracket ++ index ++ mark .rightBracket ++ terminal .assignOperator ++
        rule .assignment |||
      rule (.level .disjunction)
  | .level l => rule (.operand l.tighter?) ++ many (l.operators ++ rule (.operand l.tighter?))
  | .unary => (mark .bang ||| mark .minus ||| mark .bitNot) ++ rule .unary ||| rule .power
  | .power => rule .call ++ optional (mark .starStar ++ rule .unary)
  | .call => rule .primary ++ many selector
  | .arguments => separated expression .comma
  | .primary =>
    terminal .int ||| terminal .float ||| terminal .string ||| keyword .trueWord |||
      keyword .falseWord ||| keyword .nilWord ||| keyword .thisWord ||| identifier |||
      mark .leftParen ++ expression ++ mark .rightParen |||
      mark .leftBracket ++ optional (rule .arguments) ++ mark .rightBracket |||
      keyword .superWord ++ mark .dot ++ identifier

/-- The rules as they are documented: there is an index in the brackets. -/
abbrev documentedRules : Nonterminal → Ebnf := syntaxRules .expression

/-- The rules with nothing or an index in the brackets. -/
abbrev acceptedRules : Nonterminal → Ebnf := syntaxRules (.optional .expression)

/-- The tokens can be derived from the phrase. -/
inductive Derives (rules : Nonterminal → Ebnf) : Ebnf → List Token → Prop
  | terminal {x : Terminal} {t : Token} : x.Fits t.kind → Derives rules (.terminal x) [t]
  | rule {name : Nonterminal} {ts : List Token} :
      Derives rules (rules name) ts → Derives rules (.rule name) ts
  | seq {before after : Ebnf} {ts us : List Token} :
      Derives rules before ts → Derives rules after us → Derives rules (.seq before after) (ts ++ us)
  | this {this that : Ebnf} {ts : List Token} :
      Derives rules this ts → Derives rules (.either this that) ts
  | that {this that : Ebnf} {ts : List Token} :
      Derives rules that ts → Derives rules (.either this that) ts
  | skip {inner : Ebnf} : Derives rules (.optional inner) []
  | take {inner : Ebnf} {ts : List Token} :
      Derives rules inner ts → Derives rules (.optional inner) ts
  | done {inner : Ebnf} : Derives rules (.many inner) []
  | more {inner : Ebnf} {ts us : List Token} :
      Derives rules inner ts → Derives rules (.many inner) us → Derives rules (.many inner) (ts ++ us)

/-- No assignment operator stands right behind a pair of brackets with nothing in them. -/
def IndicesGiven (ts : List Token) : Prop :=
  ∀ opening closing operator : Token, [opening, closing, operator] <:+: ts →
    opening.kind = .mark .leftBracket → closing.kind = .mark .rightBracket →
    AssignOperator.ofToken? operator.kind = none

theorem IndicesGiven.of_infix {ts us : List Token} (h : IndicesGiven ts) (hu : us <:+: ts) :
    IndicesGiven us :=
  fun opening closing operator hi => h opening closing operator (hi.trans hu)

/-- How much of an assignment without an index the last tokens are. -/
inductive ScanState where
  | plain
  | opened
  | closed
deriving DecidableEq, Repr

namespace ScanState

/-- Reads one more token; there is no state behind an assignment without an index. -/
def step : ScanState → TokenKind → Option ScanState
  | _, .mark .leftBracket => some opened
  | opened, .mark .rightBracket => some closed
  | closed, kind => if (AssignOperator.ofToken? kind).isSome then none else some plain
  | _, _ => some plain

/-- Reads tokens one after the other. -/
def read (state : ScanState) (ts : List Token) : Option ScanState :=
  ts.foldlM (fun state t => state.step t.kind) state

theorem read_append (state : ScanState) (ts us : List Token) :
    state.read (ts ++ us) = (state.read ts).bind fun next => next.read us :=
  List.foldlM_append

/-- Behind a pair of brackets with nothing in them no assignment operator can be read. -/
theorem step_closed {kind : TokenKind} (h : AssignOperator.ofToken? kind ≠ none) :
    closed.step kind = none := by
  unfold step
  split
  · exact absurd rfl h
  · exact absurd rfl h
  · exact if_pos (Option.isSome_iff_ne_none.2 h)
  · contradiction

theorem read_indexless {opening closing operator : Token} (ho : opening.kind = .mark .leftBracket)
    (hc : closing.kind = .mark .rightBracket) (ha : AssignOperator.ofToken? operator.kind ≠ none)
    (state : ScanState) : state.read [opening, closing, operator] = none := by
  have hopened : state.step opening.kind = some opened := by rw [ho]; cases state <;> rfl
  have hclosed : opened.step closing.kind = some closed := by rw [hc]; rfl
  simp [read, hopened, hclosed, step_closed ha]

/-- Tokens that can be read to their end give every assignment to an element its index. -/
theorem indicesGiven_of_read {state last : ScanState} {ts : List Token}
    (h : state.read ts = some last) : IndicesGiven ts := by
  rintro opening closing operator ⟨before, after, rfl⟩ ho hc
  refine Decidable.byContradiction fun ha => ?_
  rw [read_append, read_append] at h
  obtain ⟨behind, h, -⟩ := Option.bind_eq_some_iff.1 h
  obtain ⟨middle, -, h⟩ := Option.bind_eq_some_iff.1 h
  rw [read_indexless ho hc ha] at h
  cases h

/-- All states. -/
def all : List ScanState := [plain, opened, closed]

theorem mem_all (state : ScanState) : state ∈ all := by cases state <;> decide

/-- The states in which a phrase may end: no phrase ends in a bracket that opens. -/
def phraseEnds : List ScanState := [plain, closed]

end ScanState

/-- The state behind a token that the rule asks for. -/
def Terminal.step : Terminal → ScanState → Option ScanState
  | mark m, state => state.step (.mark m)
  | assignOperator, state => if state = .closed then none else some .plain
  | _, _ => some .plain

theorem Terminal.Fits.step {x : Terminal} {kind : TokenKind} (h : x.Fits kind) (state : ScanState) :
    state.step kind = x.step state := by
  cases x with
  | mark m => cases h; rfl
  | keyword k => cases h; cases state <;> rfl
  | identifier => cases h; cases state <;> rfl
  | int => obtain ⟨value, rfl⟩ := h; cases state <;> rfl
  | float => obtain ⟨value, rfl⟩ := h; cases state <;> rfl
  | string => obtain ⟨value, rfl⟩ := h; cases state <;> rfl
  | eof => cases h; cases state <;> rfl
  | assignOperator =>
    have ha := Option.isSome_iff_ne_none.1 h
    cases state with
    | closed => exact ScanState.step_closed ha
    | _ =>
      unfold ScanState.step
      split
      · exact absurd rfl ha
      · contradiction
      · contradiction
      · rfl

open ScanState in
/-- The states in which tokens of the phrase can end when they are read from one of the given states, if
they can be read at all. Behind a rule it is enough to know that a phrase has ended. -/
def Ebnf.ends : Ebnf → List ScanState → Option (List ScanState)
  | terminal x, states =>
    if states.all fun state => (x.step state).isSome then some (states.filterMap x.step) else none
  | rule _, _ => some phraseEnds
  | seq before after, states => (before.ends states).bind after.ends
  | either this that, states =>
    (this.ends states).bind fun found => (that.ends states).map (found ++ ·)
  | optional inner, states => (inner.ends states).map (states ++ ·)
  | many inner, states =>
    (inner.ends all).bind fun found =>
      if found ⊆ phraseEnds then some (states ++ phraseEnds) else none

/-- From every state the tokens of the phrase can be read, and then a phrase has ended. -/
def Ebnf.Settles (phrase : Ebnf) : Prop :=
  ∃ found ∈ phrase.ends ScanState.all, found ⊆ ScanState.phraseEnds

instance (phrase : Ebnf) : Decidable phrase.Settles :=
  inferInstanceAs (Decidable (∃ found ∈ phrase.ends ScanState.all, found ⊆ ScanState.phraseEnds))

theorem Ebnf.ends_many {inner : Ebnf} {states found : List ScanState}
    (h : (many inner).ends states = some found) :
    inner.Settles ∧ found = states ++ ScanState.phraseEnds := by
  obtain ⟨ends, hi, h⟩ := Option.bind_eq_some_iff.1 h
  obtain ⟨hsub, h⟩ := Option.ite_none_right_eq_some.1 h
  exact ⟨⟨ends, hi, hsub⟩, (Option.some.inj h).symm⟩

theorem Ebnf.ends_many_of_settles {inner : Ebnf} (h : inner.Settles) (states : List ScanState) :
    (many inner).ends states = some (states ++ ScanState.phraseEnds) := by
  obtain ⟨ends, hi, hsub⟩ := h
  have hi : inner.ends ScanState.all = some ends := hi
  simp [Ebnf.ends, hi, hsub]

/-- What the rules derive can be read, if this is so for the right side of each rule. -/
theorem Derives.reads {rules : Nonterminal → Ebnf} (hrules : ∀ name, (rules name).Settles)
    {phrase : Ebnf} {ts : List Token} (h : Derives rules phrase ts)
    {states found : List ScanState} (hends : phrase.ends states = some found) {state : ScanState}
    (hstate : state ∈ states) : ∃ last ∈ found, state.read ts = some last := by
  induction h generalizing states found state with
  | @terminal x t hfits =>
    obtain ⟨hall, hends⟩ := Option.ite_none_right_eq_some.1 hends
    cases hends
    obtain ⟨last, hlast⟩ := Option.isSome_iff_exists.1 (List.all_eq_true.1 hall state hstate)
    refine ⟨last, List.mem_filterMap.2 ⟨state, hstate, hlast⟩, ?_⟩
    simpa [ScanState.read, hfits.step] using hlast
  | @rule name ts _ ih =>
    obtain ⟨ends, hname, hsub⟩ := hrules name
    obtain ⟨last, hlast, hread⟩ := ih hname (ScanState.mem_all state)
    cases hends
    exact ⟨last, hsub hlast, hread⟩
  | seq _ _ ihb iha =>
    obtain ⟨between, hb, ha⟩ := Option.bind_eq_some_iff.1 hends
    obtain ⟨middle, hmiddle, hfirst⟩ := ihb hb hstate
    obtain ⟨last, hlast, hsecond⟩ := iha ha hmiddle
    exact ⟨last, hlast, by rw [ScanState.read_append, hfirst]; exact hsecond⟩
  | this _ ih =>
    obtain ⟨left, hl, hr⟩ := Option.bind_eq_some_iff.1 hends
    obtain ⟨right, -, rfl⟩ := Option.map_eq_some_iff.1 hr
    obtain ⟨last, hlast, hread⟩ := ih hl hstate
    exact ⟨last, List.mem_append_left _ hlast, hread⟩
  | that _ ih =>
    obtain ⟨left, -, hr⟩ := Option.bind_eq_some_iff.1 hends
    obtain ⟨right, hright, rfl⟩ := Option.map_eq_some_iff.1 hr
    obtain ⟨last, hlast, hread⟩ := ih hright hstate
    exact ⟨last, List.mem_append_right _ hlast, hread⟩
  | skip =>
    obtain ⟨inner, -, rfl⟩ := Option.map_eq_some_iff.1 hends
    exact ⟨state, List.mem_append_left _ hstate, rfl⟩
  | take _ ih =>
    obtain ⟨inner, hi, rfl⟩ := Option.map_eq_some_iff.1 hends
    obtain ⟨last, hlast, hread⟩ := ih hi hstate
    exact ⟨last, List.mem_append_right _ hlast, hread⟩
  | done =>
    obtain ⟨_, rfl⟩ := Ebnf.ends_many hends
    exact ⟨state, List.mem_append_left _ hstate, rfl⟩
  | @more inner ts us _ _ ih ihs =>
    obtain ⟨⟨ends, hi, hsub⟩, rfl⟩ := Ebnf.ends_many hends
    obtain ⟨middle, hmiddle, hfirst⟩ := ih hi (ScanState.mem_all state)
    -- Behind the first phrase a phrase has ended, and so it has behind the others.
    have hmany := Ebnf.ends_many_of_settles ⟨ends, hi, hsub⟩ ScanState.phraseEnds
    obtain ⟨last, hlast, hsecond⟩ := ihs hmany (hsub hmiddle)
    refine ⟨last, List.mem_append_right _ (by simpa using hlast), ?_⟩
    rw [ScanState.read_append, hfirst]
    exact hsecond

/-- What rules that settle derive gives every assignment to an element its index. -/
theorem Derives.indicesGiven {rules : Nonterminal → Ebnf} (hrules : ∀ name, (rules name).Settles)
    {name : Nonterminal} {ts : List Token} (h : Derives rules (.rule name) ts) : IndicesGiven ts := by
  obtain ⟨last, -, hread⟩ := h.reads hrules rfl (ScanState.mem_all .plain)
  exact ScanState.indicesGiven_of_read hread

/-- The documented rules settle. -/
theorem documentedRules_settle (name : Nonterminal) : (documentedRules name).Settles := by
  cases name with
  | level l => cases l <;> decide
  | _ => decide

end LoxLang
