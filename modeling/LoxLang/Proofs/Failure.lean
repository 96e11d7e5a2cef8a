import LoxLang.Proofs.Assignment

/-!
# Assignments and declarations that fail

An assignment, a declaration of a variable or a class statement evaluates its operands first and stores at
its end. If it fails, then while an operand is evaluated, and it leaves what that left; or between the
operands and the store, and it leaves what the operands left. What is checked in between changes no binding,
no field and no item: a name is looked up, an old value is read, an operator is applied, an index is compared
with the length of the list.

One thing is made in between. Where a compound assignment to a field finds a method of that name instead,
the method is bound to the instance in a new scope before the operator rejects it. Nothing keeps that scope.
-/

namespace LoxLang

open Effect

/-! ## Nodes that store -/

/-- An expression or a statement that stores a value at its end. -/
inductive Writer where
  | assign (target : Reference) (operator : AssignOperator) (value : Expr)
  | set (object : Expr) (name : Name) (operator : AssignOperator) (value : Expr)
  | setElement (object : Expr) (arguments : List Expr) (operator : AssignOperator) (line : Nat)
      (value : Expr)
  | declare (name : Name) (initializer : Option Expr)
  | declareClass (name : Name) (superclass : Option Reference) (methods : List FunctionDecl)

/-- Where a value is to be stored. -/
inductive Target where
  | named (depth : Option Nat) (name : String)
  | field (object : InstanceId) (name : String)
  | element (list : ListId) (index : Value)
  /-- A name that is declared in a scope. -/
  | declared (scope : ScopeId) (name : String)

/-- The value that is stored at a target. -/
def Target.value? (m : Machine) : Target → Option Value
  | named depth name => (m.holder? depth name).bind fun holder => m.store.binding? holder name
  | field object name => m.store.field? object name
  | element list index => (m.store.itemAt list index).toOption
  | declared scope name => m.store.binding? scope name

namespace Writer

/-- Runs the node. -/
def run (fuel : Nat) : Writer → Effect Unit
  | assign target operator value => do
    let _ ← evaluate fuel (.assign target operator value)
    pure ()
  | set object name operator value => do
    let _ ← evaluate fuel (.set object name operator value)
    pure ()
  | setElement object arguments operator line value => do
    let _ ← evaluate fuel (.setElement object arguments operator line value)
    pure ()
  | declare name initializer => do
    let _ ← execute fuel (.declare name initializer)
    pure ()
  | declareClass name superclass methods => do
    let _ ← execute fuel (.declareClass name superclass methods)
    pure ()

/-- Evaluates the operands of the node and nothing else, and yields the target that they denote. What is no
instance has no fields, what is no list has no elements, and an element has one index: without these there is
no target, and the operands that stand behind are not evaluated. -/
def operands (fuel : Nat) : Writer → Effect (Option Target)
  | assign target _ value => do
    let _ ← evaluate fuel value
    let depth ← depthOf target.id
    pure (some (.named depth target.name.text))
  | set object name _ value => do
    match ← evaluate fuel object with
    | .instanceOf id _ => do
      let _ ← evaluate fuel value
      pure (some (.field id name.text))
    | _ => pure none
  | setElement object arguments _ _ value => do
    match ← evaluate fuel object with
    | .list id => do
      match ← evaluateAll fuel arguments with
      | [index] => do
        let _ ← evaluate fuel value
        pure (some (.element id index))
      | _ => pure none
    | _ => pure none
  | declare name initializer => do
    let _ ←
      match initializer with
      | some e => evaluate fuel e
      | none => pure .nil
    let scope ← currentScope
    pure (some (.declared scope name.text))
  | declareClass name superclass _ => do
    let _ ←
      match superclass with
      | some target => readReference target
      | none => pure .nil
    let scope ← currentScope
    pure (some (.declared scope name.text))

/-- The node is a compound assignment to a field, which reads a property. -/
def ReadsProperty : Writer → Prop
  | set _ _ (.compound _) _ => True
  | _ => False

end Writer

/-! ## States that are not changed -/

/-- The later state has the lists, the fields and the scopes of the earlier one, and at most one scope that was
not there before. In everything else it is the earlier one. -/
structure Unchanged (m m' : Machine) : Prop where
  lists : m'.store.lists = m.store.lists
  instances : m'.store.instances = m.store.instances
  scopes : m'.store.scopes = m.store.scopes ∨
    ∃ discarded, m'.store.scopes = m.store.scopes.push discarded
  extends_ : m'.Extends m

namespace Unchanged
variable {m m' : Machine}

theorem refl (m : Machine) : Unchanged m m := ⟨rfl, rfl, .inl rfl, .refl m⟩

theorem boundMethod (method : Closure) (receiver : Value) (m : Machine) :
    Unchanged m (LoxLang.boundMethod method receiver m).machine :=
  ⟨rfl, rfl, .inr ⟨_, rfl⟩, (adds_boundMethod method receiver).extends_⟩

theorem field (h : Unchanged m m') (object : InstanceId) (name : String) :
    m'.store.field? object name = m.store.field? object name := by
  simp only [Store.field?, h.instances]

end Unchanged

/-! ## What is done between the operands and the store -/

section Between
variable {m n : Machine} {e : RuntimeError}

/-- Two effects in a row fail in the first one or in the second one. -/
theorem Effect.bind_eq_failed {α β : Type} {effect : Effect α} {next : α → Effect β}
    (h : (effect >>= next) m = .failed e n) :
    effect m = .failed e n ∨ ∃ a r, effect m = .done a r ∧ next a r = .failed e n := by
  change andThen effect next m = _ at h
  unfold andThen at h
  cases ho : effect m with
  | done a r => simpa [ho] using h
  | failed e' r => simpa [ho] using h
  | outOfFuel r => simp [ho] at h

/-- What is put behind an effect without doing anything does not fail. -/
theorem Effect.failed_of_bind_pure {α β : Type} {effect : Effect α} {result : α → β}
    (h : (effect >>= fun a => pure (result a)) m = .failed e n) : effect m = .failed e n := by
  rcases bind_eq_failed h with h | ⟨_, r, -, hpure⟩
  · exact h
  · cases hpure

/-- What comes second leaves the machine as it finds it. -/
theorem Effect.bind_machine {α β : Type} {effect : Effect α} {next : α → Effect β}
    (h : ∀ a r, (next a r).machine = r) : ((effect >>= next) m).machine = (effect m).machine := by
  change (andThen effect next m).machine = _
  unfold andThen
  cases effect m with
  | done a r => exact h a r
  | failed e r => rfl
  | outOfFuel r => rfl

theorem ofExcept_machine {α : Type} (line : Nat) (result : Except Fault α) (m : Machine) :
    (ofExcept line result m).machine = m := by
  cases result <;> rfl

theorem readName_machine (depth : Option Nat) (name : Name) (m : Machine) :
    (readName depth name m).machine = m := ofExcept_machine name.line _ m

theorem itemOf_machine (list : ListId) (index : Value) (line : Nat) (m : Machine) :
    (itemOf list index line m).machine = m := ofExcept_machine line _ m

theorem instanceProperty_unchanged (id : InstanceId) (c : ClassObject) (name : Name) (m : Machine) :
    Unchanged m (instanceProperty id c name m).machine := by
  unfold instanceProperty
  rw [read_bind]
  cases m.store.field? id name.text with
  | some value => exact .refl m
  | none =>
    dsimp only
    cases c.method? name.text with
    | some method => exact .boundMethod method _ m
    | none => exact .refl m

/-- The old value is read, if at all, and nothing else is done. -/
theorem combine_machine (operator : AssignOperator) (line : Nat) (value : Value) (old : Effect Value)
    (m : Machine) : (combine operator line value old m).machine = m ∨
      (combine operator line value old m).machine = (old m).machine := by
  cases operator with
  | plain => exact .inl rfl
  | compound operator => exact .inr (bind_machine fun a r => ofExcept_machine line _ r)

/-- Combining with an old value that is only looked up leaves the machine as it is. -/
theorem combine_same {operator : AssignOperator} {line : Nat} {value : Value} {old : Effect Value}
    (hold : (old m).machine = m) : (combine operator line value old m).machine = m :=
  (combine_machine operator line value old m).elim id fun h => h.trans hold

/-- An effect that leaves the machine as it is where it fails. -/
def Effect.Harmless {α : Type} (effect : Effect α) : Prop := ∀ m e n, effect m = .failed e n → n = m

theorem harmless_modifyStore (change : Store → Store) : (modifyStore change).Harmless :=
  fun _ _ _ h => nomatch h

theorem harmless_writeName (depth : Option Nat) (name : Name) (value : Value) :
    (writeName depth name value).Harmless := by
  intro m e n h
  cases hholder : m.holder? depth name.text with
  | none =>
    rw [writeName_unbound hholder] at h
    cases h
    rfl
  | some holder =>
    rw [writeName_bound hholder] at h
    cases h

/-- Where the index denotes no item, the list stays as it is. -/
theorem harmless_setItemAt (list : ListId) (index value : Value) (line : Nat) :
    (onStore line fun s => s.setItemAt list index value).Harmless := by
  intro m e n h
  cases hp : position (m.store.items list).size index with
  | ok i =>
    rw [onStore_ok (Store.setItemAt_ok hp value)] at h
    cases h
  | error fault =>
    rw [onStore_error (Store.setItemAt_error hp value)] at h
    cases h
    rfl

/-- If the store behind it is harmless, then a failure leaves what the new value left. -/
theorem machine_of_stored_failed {new : Effect Value} {store : Value → Effect Unit}
    (hstore : ∀ w, (store w).Harmless)
    (h : (new >>= fun w => store w >>= fun _ => pure w) m = .failed e n) : n = (new m).machine := by
  rcases bind_eq_failed h with hnew | ⟨w, r, hnew, h⟩
  · rw [hnew]
    rfl
  · rw [hnew]
    exact hstore w r e n (failed_of_bind_pure h)

end Between

/-! ## Each node by itself -/

section Nodes
variable {fuel : Nat} {m n : Machine} {e : RuntimeError}

/-- The error is that of an operand, and the state is the one that this operand left; or the operands were all
evaluated, and the scopes, the fields and the lists are those that they left. What the target held then it
holds still, and a name that was not declared then is not declared now. -/
def Writer.Leaves (writer : Writer) (fuel : Nat) (m : Machine) (e : RuntimeError) (n : Machine) : Prop :=
  writer.operands fuel m = .failed e n ∨
    ∃ target r, writer.operands fuel m = .done target r ∧ Unchanged r n ∧
      (¬ writer.ReadsProperty → n = r) ∧ ∀ t, target = some t → t.value? n = t.value? r

theorem Writer.Leaves.after {writer : Writer} {target : Option Target} {r : Machine}
    (h : writer.operands fuel m = .done target r) (hn : n = r) : writer.Leaves fuel m e n := by
  subst hn
  exact .inr ⟨target, n, h, .refl n, fun _ => rfl, fun _ _ => rfl⟩

theorem assign_leaves {target : Reference} {operator : AssignOperator} {value : Expr}
    (h : evaluate (fuel + 1) (.assign target operator value) m = .failed e n) :
    (Writer.assign target operator value).Leaves fuel m e n := by
  rcases bind_eq_failed h with hv | ⟨v, r, hv, h⟩
  · exact .inl (bind_failed hv)
  · have hstored := machine_of_stored_failed (harmless_writeName _ target.name) h
    exact .after (bind_done hv) (hstored.trans (combine_same (readName_machine _ _ r)))

theorem set_leaves {object : Expr} {name : Name} {operator : AssignOperator} {value : Expr}
    (h : evaluate (fuel + 1) (.set object name operator value) m = .failed e n) :
    (Writer.set object name operator value).Leaves fuel m e n := by
  rcases bind_eq_failed h with ho | ⟨o, q, ho, h⟩
  · exact .inl (bind_failed ho)
  cases o with
  | instanceOf id c =>
    have hobject : (Writer.set object name operator value).operands fuel m =
        (evaluate fuel value >>= fun _ => pure (some (.field id name.text))) q := bind_done ho
    rcases bind_eq_failed h with hv | ⟨v, r, hv, h⟩
    · exact .inl (hobject.trans (bind_failed hv))
    have hoperands := hobject.trans (bind_done hv)
    have hstored := machine_of_stored_failed (fun _ => harmless_modifyStore _) h
    cases operator with
    | plain => exact .after hoperands hstored
    | compound operator =>
      have hunchanged : Unchanged r n := by
        rw [hstored]
        rcases combine_machine _ _ _ _ r with hsame | hread
        · rw [hsame]
          exact .refl r
        · rw [hread]
          exact instanceProperty_unchanged id c name r
      refine .inr ⟨_, r, hoperands, hunchanged, fun hplain => absurd trivial hplain, fun t ht => ?_⟩
      cases ht
      exact hunchanged.field id name.text
  | list id =>
    cases h
    exact .after (bind_done ho) rfl
  | _ =>
    cases h
    exact .after (bind_done ho) rfl

theorem setElement_leaves {object value : Expr} {arguments : List Expr} {operator : AssignOperator}
    {line : Nat}
    (h : evaluate (fuel + 1) (.setElement object arguments operator line value) m = .failed e n) :
    (Writer.setElement object arguments operator line value).Leaves fuel m e n := by
  rcases bind_eq_failed h with ho | ⟨o, q, ho, h⟩
  · exact .inl (bind_failed ho)
  cases o with
  | list id =>
    rcases bind_eq_failed h with hi | ⟨indices, p, hi, h⟩
    · exact .inl ((bind_done ho).trans (bind_failed hi))
    match indices with
    | [index] =>
      have hindex : (Writer.setElement object arguments operator line value).operands fuel m =
          (evaluate fuel value >>= fun _ => pure (some (.element id index))) p :=
        (bind_done ho).trans (bind_done hi)
      rcases bind_eq_failed h with hv | ⟨v, r, hv, h⟩
      · exact .inl (hindex.trans (bind_failed hv))
      have hstored := machine_of_stored_failed (fun w => harmless_setItemAt id index w line) h
      exact .after (hindex.trans (bind_done hv))
        (hstored.trans (combine_same (itemOf_machine id index line r)))
    | [] =>
      cases h
      exact .after ((bind_done ho).trans (bind_done hi)) rfl
    | _ :: _ :: _ =>
      cases h
      exact .after ((bind_done ho).trans (bind_done hi)) rfl
  | _ =>
    cases h
    exact .after (bind_done ho) rfl

theorem declare_leaves {name : Name} {initializer : Option Expr}
    (h : execute (fuel + 1) (.declare name initializer) m = .failed e n) :
    (Writer.declare name initializer).Leaves fuel m e n := by
  cases initializer with
  | none => cases h
  | some value =>
    rcases bind_eq_failed h with hv | ⟨v, r, hv, h⟩
    · exact .inl (bind_failed hv)
    · cases h

/-- The last step of a class statement, which looks the name up and gives it the class. -/
theorem assignHere_done {name : Name} (h : (m.store.binding? m.current name.text).isSome) (value : Value) :
    (do
      let holder ← Effect.read fun m => m.store.binder? m.current name.text
      let holder ← ofOption name.line (.undefinedVariable name.text) holder
      modifyStore fun s => s.define holder name.text value : Effect Unit) m =
      .done () { m with store := m.store.define m.current name.text value } := by
  rw [read_bind, Store.binder_of_bound h]
  rfl

/-- Once the superclass is there, a class statement comes to its end, for it has bound the name itself that it
looks up again. -/
theorem defineClass_done {name : Name} {superclass : Option Reference} {methods : List FunctionDecl}
    {found : Option ClassObject} (hs : superclassOf name.line superclass m = .done found n)
    (hcurrent : n.current < n.store.scopes.size) :
    ∃ after, defineClass name superclass methods m = .done () after := by
  have hbound : ((n.store.define n.current name.text .nil).binding? n.current name.text).isSome := by
    rw [Store.define_binding_self hcurrent, if_pos rfl]
    rfl
  unfold defineClass
  rw [bind_done hs]
  cases found with
  | none =>
    exact ⟨_, assignHere_done (m := { n with
      store := (n.store.define n.current name.text .nil).newIdentity.2 }) hbound _⟩
  | some c =>
    have hopened : (((n.store.define n.current name.text .nil).newScope [("super", .classObject c)]
        (some n.current)).2.binding? n.current name.text).isSome := by
      rw [Store.newScope_binding, Store.define_size, if_neg (Nat.ne_of_lt hcurrent)]
      exact hbound
    exact ⟨_, assignHere_done (m := { n with
      store := ((n.store.define n.current name.text .nil).newScope [("super", .classObject c)]
        (some n.current)).2.newIdentity.2 }) hopened _⟩

theorem superclassOf_machine (line : Nat) (superclass : Option Reference) (m : Machine) :
    (superclassOf line superclass m).machine = m := by
  cases superclass with
  | none => rfl
  | some target =>
    have hread : (readReference target m).machine = m := readName_machine _ target.name m
    refine (bind_machine fun v r => ?_).trans hread
    cases v <;> rfl

theorem declareClass_leaves {name : Name} {superclass : Option Reference} {methods : List FunctionDecl}
    (hcurrent : m.current < m.store.scopes.size)
    (h : execute (fuel + 1) (.declareClass name superclass methods) m = .failed e n) :
    (Writer.declareClass name superclass methods).Leaves fuel m e n := by
  have hclass : defineClass name superclass methods m = .failed e n := failed_of_bind_pure h
  rcases bind_eq_failed hclass with hs | ⟨found, r, hs, -⟩
  · cases superclass with
    | none => cases hs
    | some target =>
      rcases bind_eq_failed hs with hread | ⟨v, r, hread, hs⟩
      · exact .inl (bind_failed hread)
      · have hsame : n = r := by cases v <;> cases hs <;> rfl
        exact .after (bind_done hread) hsame
  · obtain rfl : r = m := by
      rw [← superclassOf_machine name.line superclass m, hs]
      rfl
    obtain ⟨after, hdone⟩ : ∃ after, defineClass name superclass methods r = .done () after :=
      defineClass_done hs hcurrent
    cases hclass.symm.trans hdone

end Nodes

/-- A node that stores a value and fails changes nothing by itself, in every state in which the current scope
is there, as it is throughout a session. -/
theorem failed_write_changes_nothing (writer : Writer) {fuel : Nat} {m n : Machine} {e : RuntimeError}
    (hcurrent : m.current < m.store.scopes.size) (h : writer.run (fuel + 1) m = .failed e n) :
    writer.Leaves fuel m e n := by
  cases writer with
  | assign target operator value => exact assign_leaves (failed_of_bind_pure h)
  | set object name operator value => exact set_leaves (failed_of_bind_pure h)
  | setElement object arguments operator line value => exact setElement_leaves (failed_of_bind_pure h)
  | declare name initializer => exact declare_leaves (failed_of_bind_pure h)
  | declareClass name superclass methods => exact declareClass_leaves hcurrent (failed_of_bind_pure h)

/-- A machine with an instance `o` of a class with a method `f`. -/
def methodMachine : Machine where
  store :=
    { scopes :=
        #[⟨[("o", .instanceOf 0 ⟨0, "C", none, [("f", ⟨.mk ⟨"f", 1⟩ [] [], 0, false⟩)]⟩)], none⟩]
      instances := #[[]]
      nextIdentity := 1 }
  current := 0
  globals := 0

/-- An index behind the end, a superclass that is an integer, and a method in the place of a field. -/
theorem failed_write_changes_nothing_sample :
    (let writer : Writer :=
        .setElement (.reference ⟨0, ⟨"xs", 1⟩⟩) [.literal (.int 1)] .plain 1 sampleOperand
      ∃ n, writer.run 6 sampleMachine = .failed ⟨.indexOutOfRange 1, 1⟩ n ∧
        writer.Leaves 5 sampleMachine ⟨.indexOutOfRange 1, 1⟩ n) ∧
    (let writer : Writer := .declareClass ⟨"D", 1⟩ (some ⟨0, ⟨"x", 1⟩⟩) []
      ∃ n, writer.run 6 sampleMachine = .failed ⟨.superclassNotClass, 1⟩ n ∧
        writer.Leaves 5 sampleMachine ⟨.superclassNotClass, 1⟩ n) ∧
    (let writer : Writer :=
        .set (.reference ⟨0, ⟨"o", 1⟩⟩) ⟨"f", 1⟩ (.compound .add) (.literal (.int 1))
      ∃ n, writer.run 6 methodMachine = .failed ⟨.operandsNotNumbers, 1⟩ n ∧
        writer.Leaves 5 methodMachine ⟨.operandsNotNumbers, 1⟩ n) :=
  ⟨⟨_, rfl, failed_write_changes_nothing _ (by decide) rfl⟩,
    ⟨_, rfl, failed_write_changes_nothing _ (by decide) rfl⟩,
    ⟨_, rfl, failed_write_changes_nothing _ (by decide) rfl⟩⟩

end LoxLang
