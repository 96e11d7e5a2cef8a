import LoxLang.Proofs.Grammar.Ebnf
import LoxLang.Proofs.Unparse.RoundTrip

/-!
# What is read and the documented grammar

A token list that is read as a program can be derived by the documented rules, with one exception: an
assignment to an element may leave out its index. `accepted_by_the_rules` says both. Every program that
is read can be derived if the rules allow brackets with nothing in them, and the documented rules derive
it if and only if all indices are given.

The reader takes what stands in front of an assignment operator for an operand and looks at its tree
afterwards. So the rule of assignments is where more is to be said than that a rule of the relation is
one of the grammar: a tree that can be assigned to is spelled as a call, and it tells which tokens end it.
-/

namespace LoxLang

open Ebnf

section Phrases

variable {rules : Nonterminal → Ebnf} {inner this that : Ebnf} {m : Mark} {t : Token}
  {ts us : List Token}

namespace Derives

theorem mark (h : t.kind = .mark m) : Derives rules (.mark m) [t] := .terminal h

theorem keyword {k : Keyword} (h : t.kind = .keyword k) : Derives rules (.keyword k) [t] :=
  .terminal h

theorem identifier (h : t.kind = .identifier) : Derives rules .identifier [t] := .terminal h

theorem assignOperator {operator : AssignOperator}
    (h : AssignOperator.ofToken? t.kind = some operator) :
    Derives rules (.terminal .assignOperator) [t] :=
  .terminal (Option.isSome_of_eq_some h)

/-- The same tokens put together in another way. -/
theorem cast (h : Derives rules inner ts) (he : ts = us) : Derives rules inner us := he ▸ h

/-- One more phrase behind the others. -/
theorem append_many (h : Derives rules (.many inner) ts) (hu : Derives rules inner us) :
    Derives rules (.many inner) (ts ++ us) := by
  generalize hp : Ebnf.many inner = phrase at h
  induction h with
  | done =>
    cases hp
    simpa using Derives.more hu .done
  | more ht _ _ ih =>
    cases hp
    rw [List.append_assoc]
    exact .more ht (ih rfl)
  | _ => cases hp

theorem single (h : Derives rules inner ts) : Derives rules (separated inner m) ts := by
  rw [← List.append_nil ts]
  exact .seq h .done

/-- One more phrase with a mark behind it in front of the others. -/
theorem separate (h : Derives rules inner ts) (ht : t.kind = .mark m)
    (hu : Derives rules (separated inner m) us) :
    Derives rules (separated inner m) (ts ++ t :: us) := by
  cases hu with
  | @seq _ _ vs ws hv hw => exact .seq h (.more (.seq (.mark ht) hv) hw)

end Derives

@[simp] theorem derives_terminal {x : Terminal} :
    Derives rules (.terminal x) [t] ↔ x.Fits t.kind :=
  ⟨fun h => by cases h; assumption, .terminal⟩

@[simp] theorem derives_either :
    Derives rules (this ||| that) ts ↔ Derives rules this ts ∨ Derives rules that ts :=
  ⟨fun h => by cases h with | this h => exact .inl h | that h => exact .inr h,
    fun h => h.elim .this .that⟩

theorem derives_operators {l : Level} {operator : Joiner}
    (h : Joiner.atLevel? l t.kind = some operator) : Derives rules l.operators [t] := by
  have hj := Joiner.ofToken?_of_atLevel? h
  unfold Joiner.ofToken? at hj
  split at hj <;> cases hj <;> simp [Level.operators, Terminal.Fits, *]

theorem derives_unary {operator : UnaryOperator} (h : UnaryOperator.ofToken? t.kind = some operator) :
    Derives rules (mark .bang ||| mark .minus ||| mark .bitNot) [t] := by
  unfold UnaryOperator.ofToken? at h
  split at h <;> cases h <;> simp [Terminal.Fits, *]

/-- A literal can be derived as what an expression begins with. -/
theorem derives_literal {index : Ebnf} {value : Literal} (h : t.kind.literal? = some value) :
    Derives (syntaxRules index) (.rule .primary) [t] := by
  refine .rule ?_
  cases hk : t.kind with
  | int | float | string => simp [syntaxRules, Terminal.Fits, hk]
  | keyword k =>
    rw [hk] at h
    cases k <;> cases h <;> simp [syntaxRules, Terminal.Fits, hk]
  | _ =>
    rw [hk] at h
    cases h

end Phrases

/-- In the brackets of an assignment there may stand an expression, and nothing only if this does not
occur in the tokens. -/
structure Admits (index : Ebnf) (ts : List Token) : Prop where
  given : ∀ us, Derives (syntaxRules index) expression us → Derives (syntaxRules index) index us
  left : Derives (syntaxRules index) index [] ∨ IndicesGiven ts

section Spelled

variable {index : Ebnf} {first middle next : NodeId} {t : Token} {ts us : List Token}

namespace Admits

theorem of_infix (h : Admits index ts) (hu : us <:+: ts) : Admits index us :=
  ⟨h.given, h.left.imp_right fun hi => hi.of_infix hu⟩

theorem tail (h : Admits index (t :: ts)) : Admits index ts :=
  h.of_infix (List.suffix_cons t ts).isInfix

theorem front (h : Admits index (ts ++ us)) : Admits index ts :=
  h.of_infix (List.prefix_append ts us).isInfix

theorem back (h : Admits index (ts ++ us)) : Admits index us :=
  h.of_infix (List.suffix_append ts us).isInfix

end Admits

/-- The phrase of a rank. -/
def Rank.phrase : Rank → Ebnf
  | assignment => expression
  | level l => rule (.level l)
  | unary => rule .unary
  | power => rule .power
  | call => rule .call
  | primary => rule .primary

theorem Rank.phrase_operand (l : Option Level) :
    (Rank.operand l).phrase = rule (.operand l) := by cases l <;> rfl

/-- The expression is a name, a property or an element, the forms that can be assigned to. -/
inductive Expr.Target : Expr → Prop
  | reference {target : Reference} : Target (.reference target)
  | get {object : Expr} {name : Name} : Target (.get object name)
  | element {object : Expr} {line : Nat} {es : List Expr} : Target (.call object .brackets line es)

theorem Expr.target_of_assigned {target value e : Expr} {operator : AssignOperator}
    (h : target.assigned? operator value = some e) : target.Target := by
  unfold Expr.assigned? at h
  split at h
  · exact .reference
  · exact .get
  · exact .element
  · cases h

/-- The tokens are a name, a property of a call or an element of one, maybe without its index. -/
inductive DerivesTarget (rules : Nonterminal → Ebnf) : List Token → Prop
  | name {t : Token} : t.kind = .identifier → DerivesTarget rules [t]
  | property {dot name : Token} {ts : List Token} :
      Derives rules (rule .call) ts → dot.kind = .mark .dot → name.kind = .identifier →
      DerivesTarget rules (ts ++ [dot, name])
  | element {opening closing : Token} {ts us : List Token} :
      Derives rules (rule .call) ts → opening.kind = .mark .leftBracket →
      us = [] ∨ Derives rules expression us → closing.kind = .mark .rightBracket →
      DerivesTarget rules (ts ++ opening :: (us ++ [closing]))

/-- An assignment to a target is derived by one of the two rules for it. -/
theorem DerivesTarget.assignment {operator : AssignOperator}
    (h : DerivesTarget (syntaxRules index) ts)
    (ht : AssignOperator.ofToken? t.kind = some operator)
    (hu : Derives (syntaxRules index) (rule .assignment) us) (hadmits : Admits index (ts ++ t :: us)) :
    Derives (syntaxRules index) (rule .assignment) (ts ++ t :: us) := by
  cases h with
  | name hname =>
    have hobject : Derives (syntaxRules index) (optional (rule .call ++ mark .dot)) [] := .skip
    have h := Derives.seq (.seq (.seq hobject (.identifier hname)) (.assignOperator ht)) hu
    exact .rule (.this (.this h))
  | property hs hdot hname =>
    have hobject := Derives.take (.seq hs (.mark hdot))
    have h := Derives.seq (.seq (.seq hobject (.identifier hname)) (.assignOperator ht)) hu
    exact .rule (.this (.this (h.cast (by simp))))
  | @element opening closing ts vs hs ho hv hc =>
    have hindex : Derives (syntaxRules index) index vs := by
      obtain rfl | hv := hv
      · refine hadmits.left.resolve_right fun hgiven => ?_
        have hnone := hgiven opening closing t ⟨ts, us, by simp⟩ ho hc
        exact absurd (hnone.symm.trans ht) nofun
      · exact hadmits.given vs hv
    have h := Derives.seq (.seq (.seq (.seq (.seq hs (.mark ho)) hindex) (.mark hc))
      (.assignOperator ht)) hu
    exact .rule (.this (.that (h.cast (by simp))))

/-- The tokens can be derived as the phrase of the rank, and as a target if the expression is one. -/
structure DerivedAs (rules : Nonterminal → Ebnf) (r : Rank) (ts : List Token) (e : Expr) : Prop where
  phrase : Derives rules r.phrase ts
  target : r ≠ .assignment → e.Target → DerivesTarget rules ts

namespace DerivedAs

variable {rules : Nonterminal → Ebnf} {r : Rank} {e : Expr}

/-- An expression that cannot be assigned to. -/
theorem of_phrase (h : Derives rules r.phrase ts) (he : ¬e.Target) : DerivedAs rules r ts e :=
  ⟨h, fun _ ht => absurd ht he⟩

/-- An expression that stands at a looser rank than it has to. -/
theorem loosen {r' : Rank} (h : DerivedAs rules r ts e) (hr : r ≠ .assignment)
    (hrule : Derives rules r.phrase ts → Derives rules r'.phrase ts) : DerivedAs rules r' ts e :=
  ⟨hrule h.phrase, fun _ => h.target hr⟩

theorem loosen_operand {l : Level} (h : DerivedAs (syntaxRules index) (.operand l.tighter?) ts e) :
    DerivedAs (syntaxRules index) (.level l) ts e := by
  refine h.loosen (by cases l <;> exact nofun) fun h => ?_
  rw [Rank.phrase_operand] at h
  exact (Derives.rule (.seq h .done)).cast (List.append_nil ts)

theorem join {l : Level} {operator : Joiner} {left right : Expr}
    (hl : DerivedAs (syntaxRules index) (.level l) ts left)
    (ht : Joiner.atLevel? l t.kind = some operator)
    (hr : DerivedAs (syntaxRules index) (.operand l.tighter?) us right) :
    DerivedAs (syntaxRules index) (.level l) (ts ++ t :: us) (operator.join left t.line right) := by
  refine .of_phrase ?_ (by cases operator <;> exact nofun)
  have hr := hr.phrase
  rw [Rank.phrase_operand] at hr
  cases hl.phrase with
  | rule hl =>
    cases hl with
    | seq hfirst hothers =>
      have hmore := hothers.append_many (.seq (derives_operators ht) hr)
      exact (Derives.rule (.seq hfirst hmore)).cast (by simp)

/-- One more call, element or property behind a call. -/
theorem append_call (h : Derives (syntaxRules index) (rule .call) ts)
    (hu : Derives (syntaxRules index) selector us) :
    Derives (syntaxRules index) (rule .call) (ts ++ us) := by
  cases h with
  | rule h =>
    cases h with
    | seq hfirst hothers =>
      exact (Derives.rule (.seq hfirst (hothers.append_many hu))).cast (by simp)

theorem call {style : CallStyle} {es : List Expr} {opening closing : Token}
    (h : DerivedAs (syntaxRules index) .call ts e) (ho : opening.kind = .mark style.opening)
    (hu : Derives (syntaxRules index) (optional (rule .arguments)) us)
    (hone : style = .brackets → us = [] ∨ Derives (syntaxRules index) expression us)
    (hc : closing.kind = .mark style.closing) :
    DerivedAs (syntaxRules index) .call (ts ++ opening :: (us ++ [closing]))
      (.call e style closing.line es) := by
  refine ⟨append_call h.phrase ?_, fun _ ht => ?_⟩
  · have h := Derives.seq (.seq (.mark ho) hu) (.mark hc)
    cases style with
    | parens => exact .this (.this h)
    | brackets => exact .this (.that h)
  · cases ht
    exact .element h.phrase ho (hone rfl) hc

theorem get {dot name : Token} (h : DerivedAs (syntaxRules index) .call ts e)
    (hd : dot.kind = .mark .dot) (hn : name.kind = .identifier) :
    DerivedAs (syntaxRules index) .call (ts ++ [dot, name]) (.get e name.toName) :=
  ⟨append_call h.phrase (.that (.seq (.mark hd) (.identifier hn))), fun _ _ =>
    .property h.phrase hd hn⟩

end DerivedAs

mutual

/-- What is spelled at a rank can be derived as its phrase. -/
theorem SpellsExpr.derivedAs {r : Rank} {first next : NodeId} {ts : List Token} {e : Expr} :
    SpellsExpr r first ts e next → Admits index ts → DerivedAs (syntaxRules index) r ts e
  | .literal h, _ => .of_phrase (derives_literal h) nofun
  | .reference h, _ => ⟨.rule (.this (.this (.this (.that (.identifier h))))), fun _ _ => .name h⟩
  | .grouping hb hs ha, hi =>
    .of_phrase (.rule (.this (.this (.that
      (.seq (.seq (.mark hb) (hs.derivedAs hi.tail.front).phrase) (.mark ha)))))) nofun
  | .list hb hs ha, hi =>
    .of_phrase (.rule (.this (.that
      (.seq (.seq (.mark hb) (hs.derives hi.tail.front).1) (.mark ha))))) nofun
  | .receiver h, _ => .of_phrase (.rule (.this (.this (.this (.this (.that (.keyword h))))))) nofun
  | .inherited ht hd hn, _ =>
    .of_phrase (.rule (.that (.seq (.seq (.keyword ht) (.mark hd)) (.identifier hn)))) nofun
  | .ofPrimary hs, hi =>
    (hs.derivedAs hi).loosen nofun fun h => (Derives.rule (.seq h .done)).cast (List.append_nil _)
  | .call hs ho hu hlimit hc, hi =>
    (hs.derivedAs hi.front).call ho (hu.derives hi.back.tail.front).1
      (fun hstyle => (hu.derives hi.back.tail.front).2 (by subst hstyle; exact hlimit)) hc
  | .get hs hd hn, hi => (hs.derivedAs hi.front).get hd hn
  | .ofCall hs, hi =>
    (hs.derivedAs hi).loosen nofun fun h => (Derives.rule (.seq h .skip)).cast (List.append_nil _)
  | .power hs ht hu, hi =>
    .of_phrase (.rule (.seq (hs.derivedAs hi.front).phrase
      (.take (.seq (.mark ht) (hu.derivedAs hi.back.tail).phrase)))) nofun
  | .ofPower hs, hi => (hs.derivedAs hi).loosen nofun fun h => .rule (.that h)
  | .unary ht hs, hi =>
    .of_phrase (.rule (.this (.seq (derives_unary ht) (hs.derivedAs hi.tail).phrase))) nofun
  | .ofOperand hs, hi => (hs.derivedAs hi).loosen_operand
  | .join hs ht hu, hi => (hs.derivedAs hi.front).join ht (hu.derivedAs hi.back.tail)
  | .ofLevel hs, hi =>
    ⟨.rule (.rule (.that (hs.derivedAs hi).phrase)), fun hr => absurd rfl hr⟩
  | .assign hs ht hu he, hi => by
    have htarget := (hs.derivedAs hi.front).target nofun (Expr.target_of_assigned he)
    refine ⟨.rule (htarget.assignment ht ?_ hi), fun hr => absurd rfl hr⟩
    cases (hu.derivedAs hi.back.tail).phrase with
    | rule h => exact h

/-- Arguments can be derived, and if there is only one it can be derived as an expression. -/
theorem SpellsArguments.derives {first next : NodeId} {ts : List Token} {es : List Expr} :
    SpellsArguments first ts es next → Admits index ts →
      Derives (syntaxRules index) (optional (rule .arguments)) ts ∧
        (es.length ≤ 1 → ts = [] ∨ Derives (syntaxRules index) expression ts)
  | .nil, _ => ⟨.skip, fun _ => .inl rfl⟩
  | .items hs, hi => ⟨.take (hs.derives hi).1, fun hone => .inr ((hs.derives hi).2 hone)⟩

theorem SpellsItems.derives {first next : NodeId} {ts : List Token} {es : List Expr} :
    SpellsItems first ts es next → Admits index ts →
      Derives (syntaxRules index) (rule .arguments) ts ∧
        (es.length ≤ 1 → Derives (syntaxRules index) expression ts)
  | .last hs, hi => ⟨.rule (.single (hs.derivedAs hi).phrase), fun _ => (hs.derivedAs hi).phrase⟩
  | .more hs ht hu, hi => by
    refine ⟨?_, fun hone => ?_⟩
    · cases (hu.derives hi.back.tail).1 with
      | rule h => exact .rule (.separate (hs.derivedAs hi.front).phrase ht h)
    · cases hu <;> simp at hone

end

theorem SpellsNames.derives {rules : Nonterminal → Ebnf} {names : List Name}
    (h : SpellsNames ts names) : Derives rules (separated identifier .comma) ts := by
  induction h with
  | last ht => exact .single (.identifier ht)
  | more ht hc _ ih => exact .separate (.identifier ht) hc ih

theorem SpellsParameters.derives {params : List Name} (h : SpellsParameters ts params) :
    Derives (syntaxRules index) (optional (rule .parameters)) ts := by
  cases h with
  | nil => exact .skip
  | names h _ => exact .take (.rule h.derives)

theorem SpellsOptional.derives {value : Option Expr} (h : SpellsOptional first ts value next)
    (hi : Admits index ts) : Derives (syntaxRules index) (optional expression) ts := by
  cases h with
  | none => exact .skip
  | some h => exact .take (h.derivedAs hi).phrase

theorem SpellsVariable.derives {keyword : Token} {s : Stmt} (h : SpellsVariable first ts s next)
    (hk : keyword.kind = .keyword .varWord) (hi : Admits index ts) :
    Derives (syntaxRules index) (rule .varDecl) (keyword :: ts) := by
  cases h with
  | bare hn hs => exact .rule (.seq (.seq (.seq (.keyword hk) (.identifier hn)) .skip) (.mark hs))
  | initialized hn he h hs =>
    have hvalue := Derives.take (.seq (.mark he) (h.derivedAs hi.tail.tail.front).phrase)
    exact .rule (.seq (.seq (.seq (.keyword hk) (.identifier hn)) hvalue) (.mark hs))

theorem SpellsPlain.derives {s : Stmt} (h : SpellsPlain first ts s next) (hi : Admits index ts) :
    Derives (syntaxRules index) (rule .exprStmt) ts := by
  cases h with
  | intro h hs => exact .rule (.seq (h.derivedAs hi.front).phrase (.mark hs))

theorem SpellsInitializer.derives {s : Option Stmt} (h : SpellsInitializer first ts s next)
    (hi : Admits index ts) :
    Derives (syntaxRules index) (rule .varDecl ||| rule .exprStmt ||| mark .semicolon) ts := by
  cases h with
  | none hs => exact .that (.mark hs)
  | declare hk h => exact .this (.this (h.derives hk hi.tail))
  | plain h => exact .this (.that (h.derives hi))

theorem SpellsClauses.derives {keyword : Token} {clauses : ForClauses}
    (h : SpellsClauses first ts clauses next) (hk : keyword.kind = .keyword .forWord)
    (hi : Admits index ts)
    (hu : Derives (syntaxRules index) (rule .statement) us) :
    Derives (syntaxRules index) (rule .forStmt) (keyword :: (ts ++ us)) := by
  cases h with
  | intro hb hinit hcondition hm hincrement ha =>
    have hinit := hinit.derives hi.tail.front
    have hcondition := hcondition.derives hi.tail.back.front
    have hincrement := hincrement.derives hi.tail.back.back.tail.front
    have h := Derives.seq (.seq (.seq (.seq (.seq (.seq (.seq (.keyword hk) (.mark hb)) hinit)
      hcondition) (.mark hm)) hincrement) (.mark ha)) hu
    exact .rule (h.cast (by simp))

mutual

/-- What is spelled as a statement can be derived as one. -/
theorem SpellsStmt.derives {isOpen : Bool} {first next : NodeId} {ts : List Token} {s : Stmt} :
    SpellsStmt isOpen first ts s next → Admits index ts →
      Derives (syntaxRules index) (rule .statement) ts
  | .plain h, hi => .rule (.this (.this (.this (.this (.this (h.derives hi))))))
  | .giveBack hk h hs, hi =>
    .rule (.this (.this (.that (.rule
      (.seq (.seq (.keyword hk) (h.derives hi.tail.front)) (.mark hs))))))
  | .block hb h ha, hi =>
    .rule (.that (.rule (.seq (.seq (.mark hb) (h.derives hi.tail.front)) (.mark ha))))
  | .loop hk hb h ha hs, hi => by
    have hcondition := (h.derivedAs hi.tail.tail.front).phrase
    have hbody := hs.derives hi.tail.tail.back.tail
    have h := Derives.seq (.seq (.seq (.seq (.keyword hk) (.mark hb)) hcondition) (.mark ha)) hbody
    exact .rule (.this (.that (.rule (h.cast (by simp)))))
  | .forLoop hk h hs, hi =>
    .rule (.this (.this (.this (.this (.that
      (h.derives hk hi.tail.front (hs.derives hi.tail.back)))))))
  | .branch hk hb h ha hs, hi => by
    have hcondition := (h.derivedAs hi.tail.tail.front).phrase
    have hthen := hs.derives hi.tail.tail.back.tail
    have helse : Derives (syntaxRules index) (optional (keyword .elseWord ++ rule .statement)) [] :=
      .skip
    have h := Derives.seq (.seq (.seq (.seq (.seq (.keyword hk) (.mark hb)) hcondition) (.mark ha))
      hthen) helse
    exact .rule (.this (.this (.this (.that (.rule (h.cast (by simp)))))))
  | .branchElse hk hb h ha hs hw ho, hi => by
    have hcondition := (h.derivedAs hi.tail.tail.front).phrase
    have hthen := hs.derives hi.tail.tail.back.tail.front
    have helse := ho.derives hi.tail.tail.back.tail.back.tail
    have h := Derives.seq (.seq (.seq (.seq (.seq (.keyword hk) (.mark hb)) hcondition) (.mark ha))
      hthen) (.take (.seq (.keyword hw) helse))
    exact .rule (.this (.this (.this (.that (.rule (h.cast (by simp)))))))

theorem SpellsDeclaration.derives {isOpen : Bool} {first next : NodeId} {ts : List Token}
    {s : Stmt} : SpellsDeclaration isOpen first ts s next → Admits index ts →
      Derives (syntaxRules index) (rule .declaration) ts
  | .declare hk h, hi => .rule (.this (.that (h.derives hk hi.tail)))
  | .function hk h, hi =>
    .rule (.this (.this (.that (.rule (.seq (.keyword hk) (h.derives hi.tail))))))
  | .base hk hn hb h ha, hi =>
    .rule (.this (.this (.this (.rule (.seq (.seq (.seq (.seq (.seq (.keyword hk) (.identifier hn))
      .skip) (.mark hb)) (h.derives hi.tail.tail.tail.front)) (.mark ha))))))
  | .derived hk hn hl hs hb h ha, hi =>
    .rule (.this (.this (.this (.rule (.seq (.seq (.seq (.seq (.seq (.keyword hk) (.identifier hn))
      (.take (.seq (.mark hl) (.identifier hs)))) (.mark hb))
      (h.derives hi.tail.tail.tail.tail.tail.front)) (.mark ha))))))
  | .statement h, hi => .rule (.that (h.derives hi))

theorem SpellsBody.derives {first next : NodeId} {ts : List Token} {body : List Stmt} :
    SpellsBody first ts body next → Admits index ts →
      Derives (syntaxRules index) (many (rule .declaration)) ts
  | .nil, _ => .done
  | .cons h hs, hi => .more (h.derives hi.front) (hs.derives hi.back)

theorem SpellsFunction.derives {first next : NodeId} {ts : List Token} {f : FunctionDecl} :
    SpellsFunction first ts f next → Admits index ts →
      Derives (syntaxRules index) (rule .function) ts
  | .intro hn hb hp ha ho h hc, hi => by
    have hbody := h.derives hi.tail.tail.back.tail.tail.front
    have hblock : Derives (syntaxRules index) (rule .block) _ :=
      .rule (.seq (.seq (.mark ho) hbody) (.mark hc))
    have h := Derives.seq (.seq (.seq (.seq (.identifier hn) (.mark hb)) hp.derives) (.mark ha))
      hblock
    exact .rule (h.cast (by simp))

theorem SpellsMethods.derives {first next : NodeId} {ts : List Token} {methods : List FunctionDecl} :
    SpellsMethods first ts methods next → Admits index ts →
      Derives (syntaxRules index) (many (rule .function)) ts
  | .nil, _ => .done
  | .cons h hs, hi => .more (h.derives hi.front) (hs.derives hi.back)

end

end Spelled

/-- Whatever is read as a program can be derived, if what its assignments have between brackets is
admitted there. -/
theorem derives_of_parse {index : Ebnf} {ts : List Token} {last : Token} {first : NodeId}
    {program : List Stmt} (hts : WithoutEnd ts) (hlast : last.kind = .eof)
    (h : (parse (ts ++ [last]) first).result = .ok program) (hi : Admits index ts) :
    Derives (syntaxRules index) (rule .program) (ts ++ [last]) := by
  have hs := spellsBody_of_parse h
  rw [wordsOf_append_end hts hlast] at hs
  exact .rule (.seq (hs.derives hi) (.terminal hlast))

/-- Whatever is read as a program can be derived by the rules that let the brackets of an assignment be
empty, and the documented rules derive it if and only if all its indices are given. -/
theorem accepted_by_the_rules (ts : List Token) (last : Token) (first : NodeId)
    (program : List Stmt) (hts : WithoutEnd ts) (hlast : last.kind = .eof)
    (h : (parse (ts ++ [last]) first).result = .ok program) :
    Derives acceptedRules (rule .program) (ts ++ [last]) ∧
      (Derives documentedRules (rule .program) (ts ++ [last]) ↔ IndicesGiven (ts ++ [last])) := by
  refine ⟨derives_of_parse hts hlast h ⟨fun _ => .take, .inl .skip⟩,
    fun hd => hd.indicesGiven documentedRules_settle, fun hgiven => ?_⟩
  exact derives_of_parse hts hlast h
    ⟨fun _ => id, .inr (hgiven.of_infix (List.prefix_append ts [last]).isInfix)⟩

/-- The tokens of `xs[] = 1;`. -/
def indexlessWords : List Token :=
  [⟨.identifier, "xs", 1⟩, ⟨.mark .leftBracket, "[", 1⟩, ⟨.mark .rightBracket, "]", 1⟩,
    ⟨.mark .equal, "=", 1⟩, ⟨.int 1, "1", 1⟩, ⟨.mark .semicolon, ";", 1⟩]

/-- The tokens of `xs[0] += 1;`. -/
def indexedWords : List Token :=
  [⟨.identifier, "xs", 1⟩, ⟨.mark .leftBracket, "[", 1⟩, ⟨.int 0, "0", 1⟩,
    ⟨.mark .rightBracket, "]", 1⟩, ⟨.mark .plusEqual, "+=", 1⟩, ⟨.int 1, "1", 1⟩,
    ⟨.mark .semicolon, ";", 1⟩]

theorem accepted_by_the_rules_compound :
    ∃ program, (parse (indexedWords ++ [endWord]) 0).result = .ok program ∧
      WithoutEnd indexedWords ∧ endWord.kind = .eof ∧
      Derives documentedRules (rule .program) (indexedWords ++ [endWord]) := by
  have hts : WithoutEnd indexedWords := by simp [indexedWords]
  refine ⟨_, rfl, hts, rfl, ?_⟩
  have h := accepted_by_the_rules indexedWords endWord 0 _ hts rfl rfl
  exact h.2.2 (ScanState.indicesGiven_of_read (show ScanState.plain.read _ = some .plain by decide))

/-- An assignment without an index is read although the documented rules do not derive it. -/
theorem accepted_beyond_documented_rules :
    (∃ program, (parse (indexlessWords ++ [endWord]) 0).result = .ok program) ∧
      ¬Derives documentedRules (rule .program) (indexlessWords ++ [endWord]) := by
  refine ⟨⟨_, rfl⟩, fun h => ?_⟩
  have hgiven := h.indicesGiven documentedRules_settle
  exact absurd (hgiven _ _ _ ⟨[⟨.identifier, "xs", 1⟩], [⟨.int 1, "1", 1⟩, ⟨.mark .semicolon, ";", 1⟩,
    endWord], rfl⟩ rfl rfl) nofun

end LoxLang
