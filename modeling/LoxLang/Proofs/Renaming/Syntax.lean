import Mathlib.Data.List.Forall2
import LoxLang.Proofs.Joining.Syntax
import LoxLang.Proofs.Renaming

/-!
# Writing the renamed program

The renamed program is written with the tokens of the program, of which some identifiers are exchanged. The
proof follows the derivation of the program: all that can be spelled with one identifier can be spelled with
any other one.
-/

namespace LoxLang

variable {ρ : Renaming} {n : Nesting}

/-! ## Tokens -/

/-- The same token, or an identifier with the names exchanged. -/
inductive TokenExchanged (ρ : Renaming) : Token → Token → Prop
  | same (t : Token) : TokenExchanged ρ t t
  | identifier {t : Token} : t.kind = .identifier →
      TokenExchanged ρ t { t with lexeme := exchange ρ.old ρ.new t.lexeme }

abbrev TokensExchanged (ρ : Renaming) : List Token → List Token → Prop := List.Forall₂ (TokenExchanged ρ)

/-- With some identifiers exchanged the tokens spell something. -/
abbrev Respelled (ρ : Renaming) (ts : List Token) (spells : List Token → Prop) : Prop :=
  ∃ ts', TokensExchanged ρ ts ts' ∧ spells ts'

section Tokens
variable {t t' before after : Token} {ts ts' us us' : List Token}

theorem TokenExchanged.kind (h : TokenExchanged ρ t t') : t'.kind = t.kind := by
  cases h <;> rfl

theorem tokensExchanged_refl (ts : List Token) : TokensExchanged ρ ts ts := by
  induction ts with
  | nil => exact .nil
  | cons t rest ih => exact .cons (.same t) ih

theorem tokensExchanged_append (h : TokensExchanged ρ ts ts') (hu : TokensExchanged ρ us us') :
    TokensExchanged ρ (ts ++ us) (ts' ++ us') := by
  induction h with
  | nil => exact hu
  | cons ht _ ih => exact .cons ht ih

theorem tokensExchanged_split (h : TokensExchanged ρ (ts ++ us) ts') :
    ∃ vs vs', ts' = vs ++ vs' ∧ TokensExchanged ρ ts vs ∧ TokensExchanged ρ us vs' := by
  induction ts generalizing ts' with
  | nil => exact ⟨[], ts', rfl, .nil, h⟩
  | cons t rest ih =>
    cases h with
    | cons ht h =>
      obtain ⟨vs, vs', rfl, hv, hv'⟩ := ih h
      exact ⟨_ :: vs, vs', rfl, .cons ht hv, hv'⟩

theorem tokensExchanged_last (h : TokensExchanged ρ ts ts') (t : Token) :
    TokensExchanged ρ (ts ++ [t]) (ts' ++ [t]) :=
  tokensExchanged_append h (tokensExchanged_refl [t])

theorem tokensExchanged_within (h : TokensExchanged ρ ts ts') (before after : Token) :
    TokensExchanged ρ (before :: (ts ++ [after])) (before :: (ts' ++ [after])) :=
  .cons (.same before) (tokensExchanged_last h after)

theorem tokensExchanged_around (h : TokensExchanged ρ ts ts') (t : Token) (hu : TokensExchanged ρ us us') :
    TokensExchanged ρ (ts ++ t :: us) (ts' ++ t :: us') :=
  tokensExchanged_append h (.cons (.same t) hu)

/-- A declared name with the names exchanged is spelled by such a token. -/
theorem exchanged_name (hk : t.kind = .identifier) (n : Nesting) :
    ∃ t', TokenExchanged ρ t t' ∧ t'.toName = t.toName.rename ρ n := by
  unfold Name.rename
  split
  · exact ⟨_, .identifier hk, rfl⟩
  · exact ⟨t, .same t, rfl⟩

/-- So is a reference. -/
theorem exchanged_reference (hk : t.kind = .identifier) (n : Nesting) (id : NodeId) :
    ∃ t', TokenExchanged ρ t t' ∧ ⟨id, t'.toName⟩ = (Reference.mk id t.toName).rename ρ n := by
  unfold Reference.rename
  split
  · exact ⟨_, .identifier hk, rfl⟩
  · exact ⟨t, .same t, rfl⟩

end Tokens

/-! ## Expressions -/

theorem renameItems_length (es : List Expr) : (renameItems ρ n es).length = es.length := by
  induction es with
  | nil => rfl
  | cons e rest ih => rw [renameItems, List.length_cons, ih, List.length_cons]

theorem assigned_rename {target value e : Expr} {operator : AssignOperator}
    (h : target.assigned? operator value = some e) :
    (target.rename ρ n).assigned? operator (value.rename ρ n) = some (e.rename ρ n) := by
  unfold Expr.assigned? at h
  split at h <;> cases h <;> rfl

theorem join_rename (operator : Joiner) (left right : Expr) (line : Nat) :
    (operator.join left line right).rename ρ n =
      operator.join (left.rename ρ n) line (right.rename ρ n) := by
  cases operator <;> rfl

mutual

theorem SpellsExpr.rename {r : Rank} {first next : NodeId} {ts : List Token} {e : Expr} :
    SpellsExpr r first ts e next →
      Respelled ρ ts fun ts => SpellsExpr r first ts (e.rename ρ n) next
  | .literal h => ⟨_, tokensExchanged_refl _, .literal h⟩
  | .receiver h => ⟨_, tokensExchanged_refl _, .receiver h⟩
  | .inherited h hd hn => ⟨_, tokensExchanged_refl _, .inherited h hd hn⟩
  | .reference h => by
    obtain ⟨t', ht, he⟩ := exchanged_reference (ρ := ρ) h n first
    refine ⟨[t'], .cons ht .nil, ?_⟩
    rw [Expr.rename, ← he]
    exact .reference (ht.kind.trans h)
  | .grouping hb h ha => by
    obtain ⟨_, ht, h⟩ := h.rename
    exact ⟨_, tokensExchanged_within ht _ _, .grouping hb h ha⟩
  | .list hb h ha => by
    obtain ⟨_, ht, h⟩ := h.rename
    exact ⟨_, tokensExchanged_within ht _ _, .list hb h ha⟩
  | .ofPrimary h => h.rename.imp fun _ h => ⟨h.1, .ofPrimary h.2⟩
  | .call h hb hs hl ha => by
    obtain ⟨_, ht, h⟩ := h.rename
    obtain ⟨_, hu, hs⟩ := hs.rename
    exact ⟨_, tokensExchanged_around ht _ (tokensExchanged_last hu _),
      .call h hb hs (by rwa [renameItems_length]) ha⟩
  | .get h hd hn => by
    obtain ⟨_, ht, h⟩ := h.rename
    exact ⟨_, tokensExchanged_append ht (tokensExchanged_refl _), .get h hd hn⟩
  | .ofCall h => h.rename.imp fun _ h => ⟨h.1, .ofCall h.2⟩
  | .power h ho hu => by
    obtain ⟨_, ht, h⟩ := h.rename
    obtain ⟨_, ht', hu⟩ := hu.rename
    exact ⟨_, tokensExchanged_around ht _ ht', .power h ho hu⟩
  | .ofPower h => h.rename.imp fun _ h => ⟨h.1, .ofPower h.2⟩
  | .unary ho h => by
    obtain ⟨_, ht, h⟩ := h.rename
    exact ⟨_, .cons (.same _) ht, .unary ho h⟩
  | .ofOperand h => h.rename.imp fun _ h => ⟨h.1, .ofOperand h.2⟩
  | .join h ho hr => by
    obtain ⟨_, ht, h⟩ := h.rename
    obtain ⟨_, ht', hr⟩ := hr.rename
    rw [join_rename]
    exact ⟨_, tokensExchanged_around ht _ ht', .join h ho hr⟩
  | .ofLevel h => h.rename.imp fun _ h => ⟨h.1, .ofLevel h.2⟩
  | .assign h ho hv ha => by
    obtain ⟨_, ht, h⟩ := h.rename
    obtain ⟨_, ht', hv⟩ := hv.rename
    exact ⟨_, tokensExchanged_around ht _ ht', .assign h ho hv (assigned_rename ha)⟩

theorem SpellsArguments.rename {first next : NodeId} {ts : List Token} {es : List Expr} :
    SpellsArguments first ts es next →
      Respelled ρ ts fun ts => SpellsArguments first ts (renameItems ρ n es) next
  | .nil => ⟨_, .nil, .nil⟩
  | .items h => h.rename.imp fun _ h => ⟨h.1, .items h.2⟩

theorem SpellsItems.rename {first next : NodeId} {ts : List Token} {es : List Expr} :
    SpellsItems first ts es next →
      Respelled ρ ts fun ts => SpellsItems first ts (renameItems ρ n es) next
  | .last h => h.rename.imp fun _ h => ⟨h.1, .last h.2⟩
  | .more h hc hr => by
    obtain ⟨_, ht, h⟩ := h.rename
    obtain ⟨_, ht', hr⟩ := hr.rename
    exact ⟨_, tokensExchanged_around ht _ ht', .more h hc hr⟩

end

/-! ## Parts of statements -/

section Parts
variable {first next : NodeId} {ts : List Token}

theorem SpellsNames.rename {names : List Name} (h : SpellsNames ts names) :
    Respelled ρ ts fun ts => SpellsNames ts (renameNames ρ n names) := by
  induction h with
  | @last t hk =>
    obtain ⟨t', ht, hn⟩ := exchanged_name (ρ := ρ) hk n
    refine ⟨[t'], .cons ht .nil, ?_⟩
    rw [renameNames, List.map_singleton, ← hn]
    exact .last (ht.kind.trans hk)
  | @more t comma _ _ hk hc _ ih =>
    obtain ⟨t', ht, hn⟩ := exchanged_name (ρ := ρ) hk n
    obtain ⟨_, hu, h⟩ := ih
    refine ⟨t' :: comma :: _, .cons ht (.cons (.same comma) hu), ?_⟩
    rw [renameNames, List.map_cons, ← hn]
    exact .more (ht.kind.trans hk) hc h

theorem SpellsParameters.rename {params : List Name} (h : SpellsParameters ts params) :
    Respelled ρ ts fun ts => SpellsParameters ts (renameNames ρ n params) := by
  cases h with
  | nil => exact ⟨_, .nil, .nil⟩
  | names h hl =>
    refine h.rename.imp fun _ h => ⟨h.1, .names h.2 ?_⟩
    rwa [renameNames, List.length_map]

theorem SpellsOptional.rename {value : Option Expr} (h : SpellsOptional first ts value next) :
    Respelled ρ ts fun ts => SpellsOptional first ts (renameOptional ρ n value) next := by
  cases h with
  | none => exact ⟨_, .nil, .none⟩
  | some h => exact h.rename.imp fun _ h => ⟨h.1, .some h.2⟩

theorem SpellsVariable.renamed {s s' : Stmt} (h : SpellsVariable first ts s next) (hr : StmtRenamed ρ n s s') :
    Respelled ρ ts fun ts => SpellsVariable first ts s' next := by
  cases h with
  | @bare name semicolon hk hs =>
    cases hr with
    | declare _ =>
      obtain ⟨t', ht, hn⟩ := exchanged_name (ρ := ρ) hk n
      refine ⟨[t', semicolon], .cons ht (tokensExchanged_refl _), ?_⟩
      rw [← hn]
      exact .bare (ht.kind.trans hk) hs
  | @initialized _ name equal semicolon _ _ hk he h hs =>
    cases hr with
    | declare _ =>
      obtain ⟨t', ht, hn⟩ := exchanged_name (ρ := ρ) hk n
      obtain ⟨us, hu, h⟩ := h.rename (ρ := ρ) (n := n)
      refine ⟨t' :: equal :: (us ++ [semicolon]), .cons ht (tokensExchanged_within hu _ _), ?_⟩
      rw [← hn]
      exact .initialized (ht.kind.trans hk) he h hs

theorem SpellsPlain.renamed {s s' : Stmt} (h : SpellsPlain first ts s next) (hr : StmtRenamed ρ n s s') :
    Respelled ρ ts fun ts => SpellsPlain first ts s' next := by
  obtain ⟨h, hs⟩ := h
  cases hr with
  | expression _ =>
    obtain ⟨us, hu, h⟩ := h.rename (ρ := ρ) (n := n)
    exact ⟨_, tokensExchanged_last hu _, .intro h hs⟩

theorem SpellsInitializer.renamed {o o' : Option Stmt} (h : SpellsInitializer first ts o next)
    (hr : ElseRenamed ρ n o o') : Respelled ρ ts fun ts => SpellsInitializer first ts o' next := by
  cases h with
  | none hs =>
    cases hr
    exact ⟨_, tokensExchanged_refl _, .none hs⟩
  | declare hk h =>
    cases hr with
    | some hr =>
      obtain ⟨_, hu, h⟩ := h.renamed hr
      exact ⟨_, .cons (.same _) hu, .declare hk h⟩
  | plain h =>
    cases hr with
    | some hr => exact (h.renamed hr).imp fun _ h => ⟨h.1, .plain h.2⟩

end Parts

/-! ## Loops -/

/-- A loop as it is made of clauses, with names exchanged, is made of such clauses. -/
theorem renamed_loop {clauses : ForClauses} {body s' : Stmt} (h : StmtRenamed ρ n (clauses.loop body) s') :
    ∃ (k l : Nesting) (initializer' : Option Stmt) (body' : Stmt),
      ElseRenamed ρ k clauses.initializer initializer' ∧ StmtRenamed ρ l body body' ∧
      s' = ForClauses.loop ⟨initializer', renameOptional ρ k clauses.condition,
        renameOptional ρ l clauses.increment⟩ body' := by
  -- An increment makes a block around the body, an initializer one around the loop; in each of them names
  -- may be exchanged, so the parts of the loop lie at up to three nestings.
  have hround {k : Nesting} {increment : Option Expr} {s' : Stmt}
      (h : StmtRenamed ρ k (ForClauses.round ⟨none, none, increment⟩ body) s') :
      ∃ l body', StmtRenamed ρ l body body' ∧
        s' = ForClauses.round ⟨none, none, renameOptional ρ l increment⟩ body' := by
    cases increment with
    | none => exact ⟨k, s', h, rfl⟩
    | some increment =>
      cases h with
      | block _ h =>
        obtain _ | ⟨h, hrest⟩ := h
        obtain _ | ⟨hincrement, hnil⟩ := hrest
        cases hincrement
        cases hnil
        exact ⟨_, _, h, rfl⟩
  have hloop {k : Nesting} {condition increment : Option Expr} {s' : Stmt}
      (h : StmtRenamed ρ k (ForClauses.loop ⟨none, condition, increment⟩ body) s') :
      ∃ l body', StmtRenamed ρ l body body' ∧
        s' = ForClauses.loop ⟨none, renameOptional ρ k condition, renameOptional ρ l increment⟩ body' := by
    cases h with
    | loop _ h =>
      obtain ⟨l, body', hbody, rfl⟩ := hround h
      refine ⟨l, body', hbody, ?_⟩
      cases condition <;> rfl
  obtain ⟨initializer, condition, increment⟩ := clauses
  cases initializer with
  | none =>
    obtain ⟨l, body', hbody, rfl⟩ := hloop h
    exact ⟨n, l, none, body', .none, hbody, rfl⟩
  | some initializer =>
    cases h with
    | block _ h =>
      obtain _ | ⟨hinitializer, hrest⟩ := h
      obtain _ | ⟨h, hnil⟩ := hrest
      cases hnil
      obtain ⟨l, body', hbody, rfl⟩ := hloop h
      exact ⟨_, l, _, body', .some hinitializer, hbody, rfl⟩

theorem SpellsClauses.renamed {first next : NodeId} {ts : List Token} {clauses : ForClauses}
    {initializer' : Option Stmt} {k l : Nesting} (h : SpellsClauses first ts clauses next)
    (hr : ElseRenamed ρ k clauses.initializer initializer') :
    Respelled ρ ts fun ts => SpellsClauses first ts ⟨initializer', renameOptional ρ k clauses.condition,
      renameOptional ρ l clauses.increment⟩ next := by
  obtain ⟨hb, hi, hc, hm, hv, ha⟩ := h
  obtain ⟨_, hti, hi⟩ := hi.renamed hr
  obtain ⟨_, htc, hc⟩ := hc.rename (ρ := ρ) (n := k)
  obtain ⟨_, htv, hv⟩ := hv.rename (ρ := ρ) (n := l)
  exact ⟨_, .cons (.same _) (tokensExchanged_append hti
    (tokensExchanged_around htc _ (tokensExchanged_last htv _))), .intro hb hi hc hm hv ha⟩

/-! ## Statements -/

mutual

theorem SpellsStmt.renamed {isOpen : Bool} {n : Nesting} {first next : NodeId} {ts : List Token} {s s' : Stmt} :
    SpellsStmt isOpen first ts s next → StmtRenamed ρ n s s' →
      Respelled ρ ts fun ts => SpellsStmt isOpen first ts s' next
  | .plain h, hr => (h.renamed hr).imp fun _ h => ⟨h.1, .plain h.2⟩
  | .giveBack hk h hs, .giveBack _ => by
    obtain ⟨_, ht, h⟩ := h.rename (ρ := ρ) (n := n)
    exact ⟨_, tokensExchanged_within ht _ _, .giveBack hk h hs⟩
  | .block hb h ha, .block _ hr => by
    obtain ⟨_, ht, h⟩ := h.renamed hr
    exact ⟨_, tokensExchanged_within ht _ _, .block hb h ha⟩
  | .loop hk hb h ha hs, .loop _ hr => by
    obtain ⟨_, ht, h⟩ := h.rename (ρ := ρ) (n := n)
    obtain ⟨_, hu, hs⟩ := hs.renamed hr
    exact ⟨_, .cons (.same _) (.cons (.same _) (tokensExchanged_around ht _ hu)), .loop hk hb h ha hs⟩
  | .forLoop hk h hs, hr => by
    obtain ⟨k, l, initializer', body', hi, hbody, rfl⟩ := renamed_loop hr
    obtain ⟨_, ht, h⟩ := h.renamed (l := l) hi
    obtain ⟨_, hu, hs⟩ := hs.renamed hbody
    exact ⟨_, .cons (.same _) (tokensExchanged_append ht hu), .forLoop hk h hs⟩
  | .branch hk hb h ha hs, .branch _ hr .none => by
    obtain ⟨_, ht, h⟩ := h.rename (ρ := ρ) (n := n)
    obtain ⟨_, hu, hs⟩ := hs.renamed hr
    exact ⟨_, .cons (.same _) (.cons (.same _) (tokensExchanged_around ht _ hu)), .branch hk hb h ha hs⟩
  | .branchElse hk hb h ha hs hw he, .branch _ hr (.some hre) => by
    obtain ⟨_, ht, h⟩ := h.rename (ρ := ρ) (n := n)
    obtain ⟨_, hu, hs⟩ := hs.renamed hr
    obtain ⟨_, hv, he⟩ := he.renamed hre
    exact ⟨_, .cons (.same _) (.cons (.same _)
      (tokensExchanged_around ht _ (tokensExchanged_around hu _ hv))), .branchElse hk hb h ha hs hw he⟩

theorem SpellsDeclaration.renamed {isOpen : Bool} {n : Nesting} {first next : NodeId} {ts : List Token}
    {s s' : Stmt} : SpellsDeclaration isOpen first ts s next → StmtRenamed ρ n s s' →
      Respelled ρ ts fun ts => SpellsDeclaration isOpen first ts s' next
  | .declare hk h, hr => by
    obtain ⟨_, ht, h⟩ := h.renamed hr
    exact ⟨_, .cons (.same _) ht, .declare hk h⟩
  | .function hk h, .function _ hr => by
    obtain ⟨_, ht, h⟩ := h.renamed hr
    exact ⟨_, .cons (.same _) ht, .function hk h⟩
  | .base hk hn hb h ha, .declareClass _ _ hr => by
    obtain ⟨_, ht, h⟩ := h.renamed hr
    exact ⟨_, .cons (.same _) (.cons (.same _) (tokensExchanged_within ht _ _)), .base hk hn hb h ha⟩
  | @SpellsDeclaration.derived first _ _ _ _ superName _ _ _ _ hk hn hl hs hb h ha, .declareClass _ _ hr => by
    obtain ⟨t', hsuper, he⟩ := exchanged_reference (ρ := ρ) hs n first
    obtain ⟨_, ht, h⟩ := h.renamed hr
    refine ⟨_, .cons (.same _) (.cons (.same _) (.cons (.same _)
      (.cons hsuper (tokensExchanged_within ht _ _)))), ?_⟩
    rw [renameSuperclass, ← he]
    exact .derived hk hn hl (hsuper.kind.trans hs) hb h ha
  | .statement h, hr => (h.renamed hr).imp fun _ h => ⟨h.1, .statement h.2⟩

theorem SpellsBody.renamed {n : Nesting} {first next : NodeId} {ts : List Token} {body body' : List Stmt} :
    SpellsBody first ts body next → BodyRenamed ρ n body body' →
      Respelled ρ ts fun ts => SpellsBody first ts body' next
  | .nil, .nil => ⟨_, .nil, .nil⟩
  | .cons h hs, .cons hr hrs => by
    obtain ⟨_, ht, h⟩ := h.renamed hr
    obtain ⟨_, hu, hs⟩ := hs.renamed hrs
    exact ⟨_, tokensExchanged_append ht hu, .cons h hs⟩

theorem SpellsFunction.renamed {n : Nesting} {first next : NodeId} {ts : List Token} {f f' : FunctionDecl} :
    SpellsFunction first ts f next → FunctionRenamed ρ n f f' →
      Respelled ρ ts fun ts => SpellsFunction first ts f' next
  | .intro hn hb hp ha ho h hc, @FunctionRenamed.intro _ _ k _ _ _ _ _ hr => by
    obtain ⟨_, ht, hp⟩ := hp.rename (ρ := ρ) (n := k)
    obtain ⟨_, hu, h⟩ := h.renamed hr
    exact ⟨_, .cons (.same _) (.cons (.same _) (tokensExchanged_around ht _ (tokensExchanged_within hu _ _))),
      .intro hn hb hp ha ho h hc⟩

theorem SpellsMethods.renamed {n : Nesting} {first next : NodeId} {ts : List Token}
    {methods methods' : List FunctionDecl} :
    SpellsMethods first ts methods next → MethodsRenamed ρ n methods methods' →
      Respelled ρ ts fun ts => SpellsMethods first ts methods' next
  | .nil, .nil => ⟨_, .nil, .nil⟩
  | .cons h hs, .cons hr hrs => by
    obtain ⟨_, ht, h⟩ := h.renamed hr
    obtain ⟨_, hu, hs⟩ := hs.renamed hrs
    exact ⟨_, tokensExchanged_append ht hu, .cons h hs⟩

end

/-! ## All identifiers are names -/

/-- The identifiers among the tokens are among the names. -/
def NamedIn (names : List String) (ts : List Token) : Prop :=
  ∀ t ∈ ts, t.kind = .identifier → t.lexeme ∈ names

section NamedIn
variable {t before after : Token} {ts us : List Token} {xs ys : List String}

theorem namedIn_nil (xs : List String) : NamedIn xs [] := nofun

theorem NamedIn.mono (h : NamedIn xs ts) (hs : xs ⊆ ys) : NamedIn ys ts := fun t ht hk => hs (h t ht hk)

theorem NamedIn.append (h : NamedIn xs ts) (hu : NamedIn xs us) : NamedIn xs (ts ++ us) :=
  List.forall_mem_append.2 ⟨h, hu⟩

theorem NamedIn.skip (hk : t.kind ≠ .identifier) (h : NamedIn xs ts) : NamedIn xs (t :: ts) :=
  List.forall_mem_cons.2 ⟨fun h => absurd h hk, h⟩

theorem NamedIn.name (hm : t.lexeme ∈ xs) (h : NamedIn xs ts) : NamedIn xs (t :: ts) :=
  List.forall_mem_cons.2 ⟨fun _ => hm, h⟩

theorem not_identifier_of_mark {m : Mark} (h : t.kind = .mark m) : t.kind ≠ .identifier := by
  rw [h]
  nofun

theorem not_identifier_of_keyword {k : Keyword} (h : t.kind = .keyword k) : t.kind ≠ .identifier := by
  rw [h]
  nofun

theorem NamedIn.mark {m : Mark} (hk : t.kind = .mark m) (h : NamedIn xs ts) : NamedIn xs (t :: ts) :=
  h.skip (not_identifier_of_mark hk)

theorem NamedIn.keyword {k : Keyword} (hk : t.kind = .keyword k) (h : NamedIn xs ts) : NamedIn xs (t :: ts) :=
  h.skip (not_identifier_of_keyword hk)

theorem NamedIn.closed {m : Mark} (h : NamedIn xs ts) (hk : after.kind = .mark m) :
    NamedIn xs (ts ++ [after]) := h.append (.mark hk (namedIn_nil xs))

theorem NamedIn.within {m m' : Mark} (h : NamedIn xs ts) (hb : before.kind = .mark m)
    (ha : after.kind = .mark m') :
    NamedIn xs (before :: (ts ++ [after])) := .mark hb (h.closed ha)

end NamedIn

theorem assigned_names {target value e : Expr} {operator : AssignOperator}
    (h : target.assigned? operator value = some e) : e.names = target.names ++ value.names := by
  unfold Expr.assigned? at h
  split at h <;> cases h <;> simp [Expr.names]

theorem join_names (operator : Joiner) (left right : Expr) (line : Nat) :
    (operator.join left line right).names = left.names ++ right.names := by
  cases operator <;> rfl

mutual

theorem SpellsExpr.namedIn {r : Rank} {first next : NodeId} {ts : List Token} {e : Expr} :
    SpellsExpr r first ts e next → NamedIn e.names ts
  | .literal h => .skip (fun hk => by rw [hk] at h; cases h) (namedIn_nil _)
  | .receiver h => .keyword h (namedIn_nil _)
  | .inherited h hd hn => .keyword h (.mark hd (.name (List.mem_singleton_self _) (namedIn_nil _)))
  | .reference h => .name (List.mem_singleton_self _) (namedIn_nil _)
  | .grouping hb h ha => h.namedIn.within hb ha
  | .list hb h ha => h.namedIn.within hb ha
  | .ofPrimary h | .ofCall h | .ofPower h | .ofOperand h | .ofLevel h => h.namedIn
  | .call h hb hs hl ha =>
    (h.namedIn.mono (List.subset_append_left _ _)).append
      ((hs.namedIn.mono (List.subset_append_right _ _)).within hb ha)
  | .get h hd hn =>
    (h.namedIn.mono (List.subset_append_left _ _)).append
      (.mark hd (.name (List.mem_append_right _ (List.mem_singleton_self _)) (namedIn_nil _)))
  | .power h ho hu =>
    (h.namedIn.mono (List.subset_append_left _ _)).append
      (.mark ho (hu.namedIn.mono (List.subset_append_right _ _)))
  | .unary ho h => .skip (fun hk => by rw [hk] at ho; cases ho) h.namedIn
  | @SpellsExpr.join _ _ _ l _ _ _ _ _ _ h ho hr => by
    rw [join_names]
    exact (h.namedIn.mono (List.subset_append_left _ _)).append
      (.skip (fun hk => by rw [hk] at ho; cases l <;> cases ho)
        (hr.namedIn.mono (List.subset_append_right _ _)))
  | .assign h ho hv ha => by
    rw [assigned_names ha]
    exact (h.namedIn.mono (List.subset_append_left _ _)).append
      (.skip (fun hk => by rw [hk] at ho; cases ho) (hv.namedIn.mono (List.subset_append_right _ _)))

theorem SpellsArguments.namedIn {first next : NodeId} {ts : List Token} {es : List Expr} :
    SpellsArguments first ts es next → NamedIn (itemNames es) ts
  | .nil => namedIn_nil _
  | .items h => h.namedIn

theorem SpellsItems.namedIn {first next : NodeId} {ts : List Token} {es : List Expr} :
    SpellsItems first ts es next → NamedIn (itemNames es) ts
  | .last h => h.namedIn.mono (List.subset_append_left _ _)
  | .more h hc hr =>
    (h.namedIn.mono (List.subset_append_left _ _)).append
      (.mark hc (hr.namedIn.mono (List.subset_append_right _ _)))

end

section Parts
variable {first next : NodeId} {ts : List Token}

theorem SpellsNames.namedIn {names : List Name} (h : SpellsNames ts names) :
    NamedIn (names.map Name.text) ts := by
  induction h with
  | last hk => exact .name List.mem_cons_self (namedIn_nil _)
  | more hk hc _ ih =>
    exact .name List.mem_cons_self (.mark hc (ih.mono (List.subset_cons_self _ _)))

theorem SpellsParameters.namedIn {params : List Name} (h : SpellsParameters ts params) :
    NamedIn (params.map Name.text) ts := by
  cases h with
  | nil => exact namedIn_nil _
  | names h hl => exact h.namedIn

theorem SpellsOptional.namedIn {value : Option Expr} (h : SpellsOptional first ts value next) :
    NamedIn (optionalNames value) ts := by
  cases h with
  | none => exact namedIn_nil _
  | some h => exact h.namedIn

theorem SpellsVariable.namedIn {s : Stmt} (h : SpellsVariable first ts s next) : NamedIn s.names ts := by
  cases h with
  | bare hk hs => exact .name List.mem_cons_self (.mark hs (namedIn_nil _))
  | initialized hk he h hs =>
    exact .name List.mem_cons_self ((h.namedIn.mono (List.subset_cons_self _ _)).within he hs)

theorem SpellsPlain.namedIn {s : Stmt} (h : SpellsPlain first ts s next) : NamedIn s.names ts := by
  obtain ⟨h, hs⟩ := h
  exact h.namedIn.closed hs

theorem SpellsInitializer.namedIn {o : Option Stmt} (h : SpellsInitializer first ts o next) :
    NamedIn (elseNames o) ts := by
  cases h with
  | none hs => exact .mark hs (namedIn_nil _)
  | declare hk h => exact .keyword hk h.namedIn
  | plain h => exact h.namedIn

theorem mem_loop_names {clauses : ForClauses} {body : Stmt} {name : String} :
    name ∈ (clauses.loop body).names ↔ name ∈ elseNames clauses.initializer ∨
      name ∈ optionalNames clauses.condition ∨ name ∈ optionalNames clauses.increment ∨ name ∈ body.names := by
  obtain ⟨initializer, condition, increment⟩ := clauses
  cases initializer <;> cases condition <;> cases increment <;>
    simp [ForClauses.loop, ForClauses.round, Stmt.names, bodyNames, Expr.names, elseNames, optionalNames,
      or_comm]

theorem SpellsClauses.namedIn {clauses : ForClauses} (h : SpellsClauses first ts clauses next) (body : Stmt) :
    NamedIn (clauses.loop body).names ts := by
  obtain ⟨hb, hi, hc, hm, hv, ha⟩ := h
  refine .mark hb ((hi.namedIn.mono fun _ h => mem_loop_names.2 (.inl h)).append
    ((hc.namedIn.mono fun _ h => mem_loop_names.2 (.inr (.inl h))).append
      ((hv.namedIn.mono fun _ h => mem_loop_names.2 (.inr (.inr (.inl h)))).within hm ha)))

end Parts

mutual

theorem SpellsStmt.namedIn {isOpen : Bool} {first next : NodeId} {ts : List Token} {s : Stmt} :
    SpellsStmt isOpen first ts s next → NamedIn s.names ts
  | .plain h => h.namedIn
  | .giveBack hk h hs => .keyword hk (h.namedIn.closed hs)
  | .block hb h ha => h.namedIn.within hb ha
  | .loop hk hb h ha hs =>
    .keyword hk (.mark hb ((h.namedIn.mono (List.subset_append_left _ _)).append
      (.mark ha (hs.namedIn.mono (List.subset_append_right _ _)))))
  | .forLoop hk h hs =>
    .keyword hk ((h.namedIn _).append (hs.namedIn.mono fun _ h => mem_loop_names.2 (.inr (.inr (.inr h)))))
  | .branch hk hb h ha hs =>
    have hs := hs.namedIn.mono fun _ h => List.mem_append_right _ (List.mem_append_left _ h)
    .keyword hk (.mark hb ((h.namedIn.mono (List.subset_append_left _ _)).append (.mark ha hs)))
  | .branchElse hk hb h ha hs hw he =>
    have hs := hs.namedIn.mono fun _ h => List.mem_append_right _ (List.mem_append_left _ h)
    have he := he.namedIn.mono fun _ h => List.mem_append_right _ (List.mem_append_right _ h)
    .keyword hk (.mark hb ((h.namedIn.mono (List.subset_append_left _ _)).append
      (.mark ha (hs.append (.keyword hw he)))))

theorem SpellsDeclaration.namedIn {isOpen : Bool} {first next : NodeId} {ts : List Token} {s : Stmt} :
    SpellsDeclaration isOpen first ts s next → NamedIn s.names ts
  | .declare hk h => .keyword hk h.namedIn
  | .function hk h => .keyword hk h.namedIn
  | .base hk _ hb h ha =>
    have hm := h.namedIn.mono fun _ h => List.mem_cons_of_mem _ (List.mem_append_right _ h)
    .keyword hk (.name List.mem_cons_self (hm.within hb ha))
  | .derived hk _ hl _ hb h ha =>
    have hm := h.namedIn.mono fun _ h => List.mem_cons_of_mem _ (List.mem_append_right _ h)
    have hsuper := List.mem_cons_of_mem _ (List.mem_append_left _ List.mem_cons_self)
    .keyword hk (.name List.mem_cons_self (.mark hl (.name hsuper (hm.within hb ha))))
  | .statement h => h.namedIn

theorem SpellsBody.namedIn {first next : NodeId} {ts : List Token} {body : List Stmt} :
    SpellsBody first ts body next → NamedIn (bodyNames body) ts
  | .nil => namedIn_nil _
  | .cons h hs =>
    (h.namedIn.mono (List.subset_append_left _ _)).append (hs.namedIn.mono (List.subset_append_right _ _))

theorem SpellsFunction.namedIn {first next : NodeId} {ts : List Token} {f : FunctionDecl} :
    SpellsFunction first ts f next → NamedIn f.names ts
  | .intro _ hb hp ha ho h hc =>
    have hp := hp.namedIn.mono fun _ h => List.mem_cons_of_mem _ (List.mem_append_left _ h)
    have h := h.namedIn.mono fun _ h => List.mem_cons_of_mem _ (List.mem_append_right _ h)
    .name List.mem_cons_self (.mark hb (hp.append (.mark ha (h.within ho hc))))

theorem SpellsMethods.namedIn {first next : NodeId} {ts : List Token} {methods : List FunctionDecl} :
    SpellsMethods first ts methods next → NamedIn (methodNames methods) ts
  | .nil => namedIn_nil _
  | .cons h hs =>
    (h.namedIn.mono (List.subset_append_left _ _)).append (hs.namedIn.mono (List.subset_append_right _ _))

end

end LoxLang
