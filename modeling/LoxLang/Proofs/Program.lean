import LoxLang.Proofs.Unparse.RoundTrip

/-!
# Identities and names of a program

The references of a program that was read are numbered without gaps or repetitions, and its names are what
their tokens were: a declared name is no keyword, and the object whose method runs is called `this`.
-/

namespace LoxLang

/-! ## Identities -/

mutual

/-- The identities of the references in an expression. -/
def Expr.ids : Expr → List NodeId
  | .literal _ => []
  | .unary _ _ right => right.ids
  | .binary left _ _ right => left.ids ++ right.ids
  | .logical left _ right => left.ids ++ right.ids
  | .grouping inner => inner.ids
  | .reference target => [target.id]
  | .assign target _ value => target.id :: value.ids
  | .call callee _ _ arguments => callee.ids ++ itemIds arguments
  | .list _ elements => itemIds elements
  | .get object _ => object.ids
  | .set object _ _ value => object.ids ++ value.ids
  | .setElement object arguments _ _ value => object.ids ++ (itemIds arguments ++ value.ids)
  | .receiver target => [target.id]
  | .inherited target _ => [target.id]

def itemIds : List Expr → List NodeId
  | [] => []
  | e :: rest => e.ids ++ itemIds rest

end

def optionalIds : Option Expr → List NodeId
  | some e => e.ids
  | none => []

def superclassIds : Option Reference → List NodeId
  | some target => [target.id]
  | none => []

mutual

def Stmt.ids : Stmt → List NodeId
  | .expression value => value.ids
  | .declare _ initializer => optionalIds initializer
  | .block body => bodyIds body
  | .branch condition thenBranch elseBranch =>
    condition.ids ++ (thenBranch.ids ++ elseIds elseBranch)
  | .loop condition body => condition.ids ++ body.ids
  | .function declaration => declaration.ids
  | .giveBack _ value => optionalIds value
  | .declareClass _ superclass methods => superclassIds superclass ++ methodIds methods

def elseIds : Option Stmt → List NodeId
  | some s => s.ids
  | none => []

def FunctionDecl.ids : FunctionDecl → List NodeId
  | ⟨_, _, body⟩ => bodyIds body

def bodyIds : List Stmt → List NodeId
  | [] => []
  | s :: rest => s.ids ++ bodyIds rest

def methodIds : List FunctionDecl → List NodeId
  | [] => []
  | f :: rest => f.ids ++ methodIds rest

end

/-- The identities are those from `first` up to but not including `next`, each once. -/
def Numbered (first : NodeId) (ids : List NodeId) (next : NodeId) : Prop :=
  ∃ n, next = first + n ∧ ids.Perm (List.range' first n)

section Numbered
variable {first middle next : NodeId} {xs ys : List NodeId}

theorem numbered_nil : Numbered first [] first := ⟨0, rfl, .refl _⟩

theorem numbered_single : Numbered first [first] (first + 1) := ⟨1, rfl, .refl _⟩

theorem Numbered.perm (h : Numbered first xs next) (hp : ys.Perm xs) : Numbered first ys next := by
  obtain ⟨n, hn, hx⟩ := h
  exact ⟨n, hn, hp.trans hx⟩

theorem Numbered.append (h : Numbered first xs middle) (h' : Numbered middle ys next) :
    Numbered first (xs ++ ys) next := by
  obtain ⟨n, rfl, hx⟩ := h
  obtain ⟨m, rfl, hy⟩ := h'
  refine ⟨n + m, Nat.add_assoc _ _ _, ?_⟩
  have := hx.append hy
  rwa [List.range'_append_1] at this

theorem Numbered.cons (h : Numbered (first + 1) xs next) : Numbered first (first :: xs) next :=
  numbered_single.append h

theorem Numbered.le (h : Numbered first xs next) : first ≤ next := by
  obtain ⟨n, rfl, -⟩ := h
  exact Nat.le_add_right _ _

theorem Numbered.nodup (h : Numbered first xs next) : xs.Nodup := by
  obtain ⟨n, -, hx⟩ := h
  exact hx.nodup_iff.2 List.nodup_range'

theorem Numbered.bounds (h : Numbered first xs next) {id : NodeId} (hid : id ∈ xs) :
    first ≤ id ∧ id < next := by
  obtain ⟨n, rfl, hx⟩ := h
  have := hx.mem_iff.1 hid
  rwa [List.mem_range'_1] at this

end Numbered

/-! ## Names -/

/-- The name is no keyword. -/
def Name.Free (n : Name) : Prop := ∀ k : Keyword, n.text ≠ k.text

mutual

/-- Variables are called by no keyword, and the object whose method runs is called `this`. -/
def Expr.Named : Expr → Prop
  | .literal _ => True
  | .unary _ _ right => right.Named
  | .binary left _ _ right => left.Named ∧ right.Named
  | .logical left _ right => left.Named ∧ right.Named
  | .grouping inner => inner.Named
  | .reference target => target.name.Free
  | .assign target _ value => target.name.Free ∧ value.Named
  | .call callee _ _ arguments => callee.Named ∧ ItemsNamed arguments
  | .list _ elements => ItemsNamed elements
  | .get object _ => object.Named
  | .set object _ _ value => object.Named ∧ value.Named
  | .setElement object arguments _ _ value => object.Named ∧ ItemsNamed arguments ∧ value.Named
  | .receiver target => target.name.text = "this"
  | .inherited .. => True

def ItemsNamed : List Expr → Prop
  | [] => True
  | e :: rest => e.Named ∧ ItemsNamed rest

end

def OptionalNamed : Option Expr → Prop
  | some e => e.Named
  | none => True

def SuperclassNamed : Option Reference → Prop
  | some target => target.name.Free
  | none => True

mutual

/-- Names are no keywords, and the object whose method runs is called `this`. -/
def Stmt.Named : Stmt → Prop
  | .expression value => value.Named
  | .declare name initializer => name.Free ∧ OptionalNamed initializer
  | .block body => BodyNamed body
  | .branch condition thenBranch elseBranch =>
    condition.Named ∧ thenBranch.Named ∧ ElseNamed elseBranch
  | .loop condition body => condition.Named ∧ body.Named
  | .function declaration => declaration.Named
  | .giveBack _ value => OptionalNamed value
  | .declareClass name superclass methods =>
    name.Free ∧ SuperclassNamed superclass ∧ MethodsNamed methods

def ElseNamed : Option Stmt → Prop
  | some s => s.Named
  | none => True

def FunctionDecl.Named : FunctionDecl → Prop
  | ⟨name, params, body⟩ => name.Free ∧ (∀ param ∈ params, param.Free) ∧ BodyNamed body

def BodyNamed : List Stmt → Prop
  | [] => True
  | s :: rest => s.Named ∧ BodyNamed rest

def MethodsNamed : List FunctionDecl → Prop
  | [] => True
  | f :: rest => f.Named ∧ MethodsNamed rest

end

/-! ## What is read is numbered and named -/

section Tokens
variable {t : Token}

theorem free_of_spelled (h : t.Spelled) (hk : t.kind = .identifier) : t.toName.Free := by
  obtain ⟨kind, lexeme, line⟩ := t
  subst hk
  exact h

theorem toName_of_keyword {k : Keyword} (h : t.Spelled) (hk : t.kind = .keyword k) :
    t.toName.text = k.text := by
  obtain ⟨kind, lexeme, line⟩ := t
  subst hk
  exact h

end Tokens

/-- Setting a target aside for an assignment changes neither identities nor names. -/
theorem assigned_ids {target value e : Expr} {operator : AssignOperator}
    (h : target.assigned? operator value = some e) : e.ids = target.ids ++ value.ids := by
  unfold Expr.assigned? at h
  split at h <;> cases h <;> simp [Expr.ids]

theorem assigned_named {target value e : Expr} {operator : AssignOperator}
    (h : target.assigned? operator value = some e) (ht : target.Named) (hv : value.Named) : e.Named := by
  unfold Expr.assigned? at h
  split at h
  · cases h; exact ⟨ht, hv⟩
  · cases h; exact ⟨ht, hv⟩
  · cases h
    simp only [Expr.Named] at ht
    exact ⟨ht.1, ht.2, hv⟩
  · cases h

theorem join_ids (operator : Joiner) (left right : Expr) (line : Nat) :
    (operator.join left line right).ids = left.ids ++ right.ids := by
  cases operator <;> simp [Joiner.join, Expr.ids]

theorem join_named (operator : Joiner) {left right : Expr} (line : Nat) (hl : left.Named)
    (hr : right.Named) : (operator.join left line right).Named := by
  cases operator <;> exact ⟨hl, hr⟩

mutual

theorem SpellsExpr.numbered {r : Rank} {first next : NodeId} {ts : List Token} {e : Expr} :
    SpellsExpr r first ts e next → Numbered first e.ids next
  | .literal _ => numbered_nil
  | .reference _ => numbered_single
  | .grouping _ h _ => h.numbered
  | .list _ h _ => h.numbered
  | .receiver _ => numbered_single
  | .inherited _ _ _ => numbered_single
  | .ofPrimary h => h.numbered
  | .call h _ hs _ _ => h.numbered.append hs.numbered
  | .get h _ _ => h.numbered
  | .ofCall h => h.numbered
  | .power h _ hu => h.numbered.append hu.numbered
  | .ofPower h => h.numbered
  | .unary _ h => h.numbered
  | .ofOperand h => h.numbered
  | .join h _ hr => by
    rw [join_ids]
    exact h.numbered.append hr.numbered
  | .ofLevel h => h.numbered
  | .assign h _ hv ha => by
    rw [assigned_ids ha]
    exact h.numbered.append hv.numbered

theorem SpellsArguments.numbered {first next : NodeId} {ts : List Token} {es : List Expr} :
    SpellsArguments first ts es next → Numbered first (itemIds es) next
  | .nil => numbered_nil
  | .items h => h.numbered

theorem SpellsItems.numbered {first next : NodeId} {ts : List Token} {es : List Expr} :
    SpellsItems first ts es next → Numbered first (itemIds es) next
  | .last h => by simpa [itemIds] using h.numbered
  | .more h _ hr => h.numbered.append hr.numbered

end

mutual

theorem SpellsExpr.named {r : Rank} {first next : NodeId} {ts : List Token} {e : Expr} :
    SpellsExpr r first ts e next → (∀ t ∈ ts, t.Spelled) → e.Named
  | .literal _, _ => trivial
  | .reference hk, ht => free_of_spelled (ht _ (by simp)) hk
  | .grouping _ h _, ht => h.named fun t hm => ht t (by simp [hm])
  | .list _ h _, ht => h.named fun t hm => ht t (by simp [hm])
  | .receiver hk, ht => toName_of_keyword (ht _ (by simp)) hk
  | .inherited _ _ _, _ => trivial
  | .ofPrimary h, ht => h.named ht
  | .call h _ hs _ _, ht =>
    ⟨h.named fun t hm => ht t (by simp [hm]), hs.named fun t hm => ht t (by simp [hm])⟩
  | .get h _ _, ht => h.named fun t hm => ht t (by simp [hm])
  | .ofCall h, ht => h.named ht
  | .power h _ hu, ht =>
    ⟨h.named fun t hm => ht t (by simp [hm]), hu.named fun t hm => ht t (by simp [hm])⟩
  | .ofPower h, ht => h.named ht
  | .unary _ h, ht => h.named fun t hm => ht t (by simp [hm])
  | .ofOperand h, ht => h.named ht
  | .join h _ hr, ht =>
    join_named _ _ (h.named fun t hm => ht t (by simp [hm])) (hr.named fun t hm => ht t (by simp [hm]))
  | .ofLevel h, ht => h.named ht
  | .assign h _ hv ha, ht =>
    assigned_named ha (h.named fun t hm => ht t (by simp [hm]))
      (hv.named fun t hm => ht t (by simp [hm]))

theorem SpellsArguments.named {first next : NodeId} {ts : List Token} {es : List Expr} :
    SpellsArguments first ts es next → (∀ t ∈ ts, t.Spelled) → ItemsNamed es
  | .nil, _ => trivial
  | .items h, ht => h.named ht

theorem SpellsItems.named {first next : NodeId} {ts : List Token} {es : List Expr} :
    SpellsItems first ts es next → (∀ t ∈ ts, t.Spelled) → ItemsNamed es
  | .last h, ht => ⟨h.named ht, trivial⟩
  | .more h _ hr, ht =>
    ⟨h.named fun t hm => ht t (by simp [hm]), hr.named fun t hm => ht t (by simp [hm])⟩

end

section Parts
variable {first next : NodeId} {ts : List Token}

theorem SpellsOptional.numbered {value : Option Expr} (h : SpellsOptional first ts value next) :
    Numbered first (optionalIds value) next := by
  cases h with
  | none => exact numbered_nil
  | some h => exact h.numbered

theorem SpellsOptional.named {value : Option Expr} (h : SpellsOptional first ts value next)
    (ht : ∀ t ∈ ts, t.Spelled) : OptionalNamed value := by
  cases h with
  | none => trivial
  | some h => exact h.named ht

theorem SpellsNames.free {names : List Name} (h : SpellsNames ts names) (ht : ∀ t ∈ ts, t.Spelled) :
    ∀ name ∈ names, name.Free := by
  induction h with
  | last hk => simpa using free_of_spelled (ht _ (by simp)) hk
  | more hk _ _ ih =>
    simp only [List.forall_mem_cons] at ht ⊢
    exact ⟨free_of_spelled ht.1 hk, ih ht.2.2⟩

theorem SpellsParameters.free {params : List Name} (h : SpellsParameters ts params)
    (ht : ∀ t ∈ ts, t.Spelled) : ∀ param ∈ params, param.Free := by
  cases h with
  | nil => simp
  | names h _ => exact h.free ht

theorem SpellsPlain.numbered {s : Stmt} (h : SpellsPlain first ts s next) :
    Numbered first s.ids next := by
  obtain ⟨h, -⟩ := h
  exact h.numbered

theorem SpellsPlain.named {s : Stmt} (h : SpellsPlain first ts s next) (ht : ∀ t ∈ ts, t.Spelled) :
    s.Named := by
  obtain ⟨h, -⟩ := h
  exact h.named fun t hm => ht t (by simp [hm])

theorem SpellsVariable.numbered {s : Stmt} (h : SpellsVariable first ts s next) :
    Numbered first s.ids next := by
  cases h with
  | bare _ _ => exact numbered_nil
  | initialized _ _ h _ => exact h.numbered

theorem SpellsVariable.named {s : Stmt} (h : SpellsVariable first ts s next)
    (ht : ∀ t ∈ ts, t.Spelled) : s.Named := by
  cases h with
  | bare hn _ => exact ⟨free_of_spelled (ht _ (by simp)) hn, trivial⟩
  | initialized hn _ h _ =>
    exact ⟨free_of_spelled (ht _ (by simp)) hn, h.named fun t hm => ht t (by simp [hm])⟩

theorem SpellsInitializer.numbered {o : Option Stmt} (h : SpellsInitializer first ts o next) :
    Numbered first (elseIds o) next := by
  cases h with
  | none _ => exact numbered_nil
  | declare _ h => exact h.numbered
  | plain h => exact h.numbered

theorem SpellsInitializer.named {o : Option Stmt} (h : SpellsInitializer first ts o next)
    (ht : ∀ t ∈ ts, t.Spelled) : ElseNamed o := by
  cases h with
  | none _ => trivial
  | declare _ h => exact h.named fun t hm => ht t (by simp [hm])
  | plain h => exact h.named ht

end Parts

namespace ForClauses

def ids (c : ForClauses) : List NodeId :=
  elseIds c.initializer ++ (optionalIds c.condition ++ optionalIds c.increment)

/-- The identities of a loop are those of its clauses and its body. -/
theorem loop_ids (c : ForClauses) (body : Stmt) : (c.loop body).ids.Perm (c.ids ++ body.ids) := by
  obtain ⟨initializer, condition, increment⟩ := c
  have hround : (ForClauses.round ⟨initializer, condition, increment⟩ body).ids.Perm
      (optionalIds increment ++ body.ids) := by
    cases increment with
    | none => exact .refl _
    | some e => simpa [ForClauses.round, Stmt.ids, bodyIds, optionalIds] using List.perm_append_comm
  have hcondition : (condition.getD (.literal (.bool true))).ids = optionalIds condition := by
    cases condition <;> simp [optionalIds, Expr.ids]
  have hloop := hround.append_left (optionalIds condition)
  cases initializer with
  | none => simpa [ForClauses.loop, ids, elseIds, Stmt.ids, hcondition] using hloop
  | some s =>
    simpa [ForClauses.loop, ids, elseIds, Stmt.ids, bodyIds, hcondition] using
      hloop.append_left s.ids

theorem loop_named {c : ForClauses} {body : Stmt} (hi : ElseNamed c.initializer)
    (hc : OptionalNamed c.condition) (hn : OptionalNamed c.increment) (hb : body.Named) :
    (c.loop body).Named := by
  obtain ⟨initializer, condition, increment⟩ := c
  have hcondition : (condition.getD (.literal (.bool true))).Named := by
    cases condition with
    | none => trivial
    | some e => exact hc
  have hround : (ForClauses.round ⟨initializer, condition, increment⟩ body).Named := by
    cases increment with
    | none => exact hb
    | some e => exact ⟨hb, hn, trivial⟩
  cases initializer with
  | none => exact ⟨hcondition, hround⟩
  | some s => exact ⟨hi, ⟨hcondition, hround⟩, trivial⟩

end ForClauses

theorem SpellsClauses.numbered {first next : NodeId} {ts : List Token} {c : ForClauses}
    (h : SpellsClauses first ts c next) : Numbered first c.ids next := by
  obtain ⟨_, hi, hc, _, hv, _⟩ := h
  exact hi.numbered.append (hc.numbered.append hv.numbered)

mutual

theorem SpellsStmt.numbered {isOpen : Bool} {first next : NodeId} {ts : List Token} {s : Stmt} :
    SpellsStmt isOpen first ts s next → Numbered first s.ids next
  | .plain h => h.numbered
  | .giveBack _ h _ => h.numbered
  | .block _ h _ => h.numbered
  | .loop _ _ h _ hs => h.numbered.append hs.numbered
  | .forLoop _ h hs => (h.numbered.append hs.numbered).perm (ForClauses.loop_ids _ _)
  | .branch _ _ h _ hs => by simpa [Stmt.ids, elseIds] using h.numbered.append hs.numbered
  | .branchElse _ _ h _ hs _ he => h.numbered.append (hs.numbered.append he.numbered)

theorem SpellsDeclaration.numbered {isOpen : Bool} {first next : NodeId} {ts : List Token} {s : Stmt} :
    SpellsDeclaration isOpen first ts s next → Numbered first s.ids next
  | .declare _ h => h.numbered
  | .function _ h => h.numbered
  | .base _ _ _ h _ => h.numbered
  | .derived _ _ _ _ _ h _ => h.numbered.cons
  | .statement h => h.numbered

theorem SpellsBody.numbered {first next : NodeId} {ts : List Token} {body : List Stmt} :
    SpellsBody first ts body next → Numbered first (bodyIds body) next
  | .nil => numbered_nil
  | .cons h hs => h.numbered.append hs.numbered

theorem SpellsFunction.numbered {first next : NodeId} {ts : List Token} {f : FunctionDecl} :
    SpellsFunction first ts f next → Numbered first f.ids next
  | .intro _ _ _ _ _ h _ => h.numbered

theorem SpellsMethods.numbered {first next : NodeId} {ts : List Token} {methods : List FunctionDecl} :
    SpellsMethods first ts methods next → Numbered first (methodIds methods) next
  | .nil => numbered_nil
  | .cons h hs => h.numbered.append hs.numbered

end

mutual

theorem SpellsStmt.named {isOpen : Bool} {first next : NodeId} {ts : List Token} {s : Stmt} :
    SpellsStmt isOpen first ts s next → (∀ t ∈ ts, t.Spelled) → s.Named
  | .plain h, ht => h.named ht
  | .giveBack _ h _, ht => h.named fun t hm => ht t (by simp [hm])
  | .block _ h _, ht => h.named fun t hm => ht t (by simp [hm])
  | .loop _ _ h _ hs, ht =>
    ⟨h.named fun t hm => ht t (by simp [hm]), hs.named fun t hm => ht t (by simp [hm])⟩
  | .forLoop _ h hs, ht => by
    have hb := hs.named fun t hm => ht t (by simp [hm])
    obtain ⟨_, hi, hc, _, hv, _⟩ := h
    exact ForClauses.loop_named (hi.named fun t hm => ht t (by simp [hm]))
      (hc.named fun t hm => ht t (by simp [hm])) (hv.named fun t hm => ht t (by simp [hm])) hb
  | .branch _ _ h _ hs, ht =>
    ⟨h.named fun t hm => ht t (by simp [hm]), hs.named fun t hm => ht t (by simp [hm]), trivial⟩
  | .branchElse _ _ h _ hs _ he, ht =>
    ⟨h.named fun t hm => ht t (by simp [hm]), hs.named fun t hm => ht t (by simp [hm]),
      he.named fun t hm => ht t (by simp [hm])⟩

theorem SpellsDeclaration.named {isOpen : Bool} {first next : NodeId} {ts : List Token} {s : Stmt} :
    SpellsDeclaration isOpen first ts s next → (∀ t ∈ ts, t.Spelled) → s.Named
  | .declare _ h, ht => h.named fun t hm => ht t (by simp [hm])
  | .function _ h, ht => h.named fun t hm => ht t (by simp [hm])
  | .base _ hn _ h _, ht =>
    ⟨free_of_spelled (ht _ (by simp)) hn, trivial, h.named fun t hm => ht t (by simp [hm])⟩
  | .derived _ hn _ hs _ h _, ht =>
    ⟨free_of_spelled (ht _ (by simp)) hn, free_of_spelled (ht _ (by simp)) hs,
      h.named fun t hm => ht t (by simp [hm])⟩
  | .statement h, ht => h.named ht

theorem SpellsBody.named {first next : NodeId} {ts : List Token} {body : List Stmt} :
    SpellsBody first ts body next → (∀ t ∈ ts, t.Spelled) → BodyNamed body
  | .nil, _ => trivial
  | .cons h hs, ht =>
    ⟨h.named fun t hm => ht t (by simp [hm]), hs.named fun t hm => ht t (by simp [hm])⟩

theorem SpellsFunction.named {first next : NodeId} {ts : List Token} {f : FunctionDecl} :
    SpellsFunction first ts f next → (∀ t ∈ ts, t.Spelled) → f.Named
  | .intro hn _ hp _ _ h _, ht =>
    ⟨free_of_spelled (ht _ (by simp)) hn, hp.free fun t hm => ht t (by simp [hm]),
      h.named fun t hm => ht t (by simp [hm])⟩

theorem SpellsMethods.named {first next : NodeId} {ts : List Token} {methods : List FunctionDecl} :
    SpellsMethods first ts methods next → (∀ t ∈ ts, t.Spelled) → MethodsNamed methods
  | .nil, _ => trivial
  | .cons h hs, ht =>
    ⟨h.named fun t hm => ht t (by simp [hm]), hs.named fun t hm => ht t (by simp [hm])⟩

end

/-- A program that was read from a text: numbered from `first` on up to `next`, with names that are what
their tokens were, and with no declaration as a branch or as the body of a loop. -/
structure WellRead (first : NodeId) (program : List Stmt) (next : NodeId) : Prop where
  numbered : Numbered first (bodyIds program) next
  named : BodyNamed program
  placed : BodyPlaced program

theorem wellRead_of_parse {source : String} {first : NodeId} {program : List Stmt}
    (h : (parse (tokens source) first).result = .ok program) :
    WellRead first program (parse (tokens source) first).nextId := by
  have hs := spellsBody_of_parse h
  rw [wordsOf_tokens] at hs
  exact ⟨hs.numbered, hs.named fun t ht => (sourceWords_spelled source t ht).2,
    (written_of_parse h).placed⟩

end LoxLang
