import LoxLang.Proofs.Sequence

/-!
# Operations on lists in a program

An operation on a list is written as an expression: a call of a method, `xs[i]`, `xs(i)` or `xs[i] = v`. What
its operands do is of no matter here, as long as they come to an end; the operation strikes in the state that
they leave. In between two operations anything may happen that leaves the lists alone. Then the answers to a
row of operations and the contents of the lists after it are those of sequences.
-/

namespace LoxLang

open Effect

/-! ## Enough fuel -/

/-- It holds for all fuel from some amount on. -/
def WithFuel (P : Nat → Prop) : Prop := ∃ n, ∀ fuel ≥ n, P fuel

namespace WithFuel
variable {P Q : Nat → Prop}

theorem of_forall (h : ∀ fuel, P fuel) : WithFuel P := ⟨0, fun fuel _ => h fuel⟩

theorem mono (h : WithFuel P) (hpq : ∀ fuel, P fuel → Q fuel) : WithFuel Q :=
  h.imp fun _ h fuel hfuel => hpq fuel (h fuel hfuel)

theorem and (h : WithFuel P) (h' : WithFuel Q) : WithFuel fun fuel => P fuel ∧ Q fuel := by
  obtain ⟨n, h⟩ := h
  obtain ⟨n', h'⟩ := h'
  exact ⟨n + n', fun fuel hfuel => ⟨h fuel (by omega), h' fuel (by omega)⟩⟩

/-- A first level of nesting may be taken off. -/
theorem of_succ (h : WithFuel fun fuel => P (fuel + 1)) : WithFuel P := by
  obtain ⟨n, h⟩ := h
  refine ⟨n + 1, fun fuel hfuel => ?_⟩
  have hsucc : P (fuel - 1 + 1) := h (fuel - 1) (by omega)
  rwa [Nat.sub_add_cancel (by omega)] at hsucc

theorem succ (h : WithFuel P) : WithFuel fun fuel => P (fuel + 1) :=
  h.imp fun _ h fuel hfuel => h (fuel + 1) (by omega)

theorem exists_fuel (h : WithFuel P) : ∃ fuel, P fuel := h.imp fun n h => h n (Nat.le_refl n)

end WithFuel

/-! ## Expressions -/

/-- The expression comes to this value. -/
def Evaluates (e : Expr) (m : Machine) (v : Value) (m' : Machine) : Prop :=
  WithFuel fun fuel => evaluate fuel e m = .done v m'

/-- The expressions come to these values. -/
def EvaluatesAll (es : List Expr) (m : Machine) (vs : List Value) (m' : Machine) : Prop :=
  WithFuel fun fuel => evaluateAll fuel es m = .done vs m'

section Expressions
variable {m p q r : Machine} {list : ListId} {line : Nat} {arguments : List Expr} {values : List Value}

theorem EvaluatesAll.nil (m : Machine) : EvaluatesAll [] m [] m := .of_succ (.of_forall fun _ => rfl)

theorem EvaluatesAll.cons {e : Expr} {v : Value} (h : Evaluates e m v p)
    (hs : EvaluatesAll arguments p values q) : EvaluatesAll (e :: arguments) m (v :: values) q :=
  .of_succ ((h.and hs).mono fun _ ⟨h, hs⟩ => (bind_done h).trans (bind_done hs))

/-- A method of a list as a value, with or without a call. -/
theorem Evaluates.get {object : Expr} {name : Name} {method : ListMethod}
    (h : Evaluates object m (.list list) p) (hname : ListMethod.ofName? name.text = some method) :
    Evaluates (.get object name) m (.listMethod list method) p := by
  have hproperty : property (.list list) name = pure (.listMethod list method) := by
    unfold property
    dsimp only
    rw [hname]
  exact .of_succ (h.mono fun _ h => (bind_done h).trans (congrFun hproperty p))

theorem evaluate_call {callee : Expr} {f : Value} (hf : Evaluates callee m f p)
    (hs : EvaluatesAll arguments p values q) (style : CallStyle) (line : Nat) : WithFuel fun fuel =>
      evaluate (fuel + 2) (.call callee style line arguments) m = call (fuel + 1) f values line q :=
  (hf.and hs).succ.mono fun _ ⟨hf, hs⟩ => (bind_done hf).trans (bind_done hs)

/-! ## Calls -/

theorem callListMethod_miscounted {s : Store} {method : ListMethod} {arguments : List Value}
    (h : arguments.length ≠ method.arity) : s.callListMethod list method arguments =
      (.error (.argumentCount method.arity arguments.length), s) := by
  unfold Store.callListMethod
  split <;> first | exact absurd rfl h | rfl

/-- The number of arguments is checked twice, to the same effect. -/
theorem call_listMethod (fuel : Nat) (list : ListId) (method : ListMethod) (arguments : List Value)
    (line : Nat) : call (fuel + 1) (.listMethod list method) arguments line =
      onStore line fun s => s.callListMethod list method arguments := by
  by_cases h : arguments.length = method.arity
  · exact if_pos h
  · funext m
    have hcount : m.store.callListMethod list method arguments =
        (.error (.argumentCount method.arity arguments.length), m.store) := callListMethod_miscounted h
    rw [onStore_error hcount]
    exact congrFun (if_neg h) m

/-- A list that is called with arguments does what its `get_at` does. -/
theorem call_list (fuel : Nat) (list : ListId) (arguments : List Value) (line : Nat) :
    call (fuel + 1) (.list list) arguments line =
      onStore line fun s => s.callListMethod list .getAt arguments := by
  match arguments with
  | [index] =>
    funext m
    change itemOf list index line m = onStore line (fun s => (s.itemAt list index, s)) m
    unfold itemOf onStore
    rw [read_bind]
    dsimp only
    cases m.store.itemAt list index <;> rfl
  | [] => rfl
  | _ :: _ :: _ => rfl

/-- A value put behind an operation on the store takes the place of its result. -/
theorem onStore_pure {α : Type} (line : Nat) (operation : Store → Except Fault α × Store) (value : Value) :
    (onStore line operation >>= fun _ => pure value) =
      onStore line fun s => ((operation s).1.map fun _ => value, (operation s).2) := by
  funext m
  change andThen (onStore line operation) _ m = _
  unfold andThen onStore
  dsimp only
  rcases operation m.store with ⟨_ | a, s⟩ <;> rfl

end Expressions

/-! ## Operations -/

/-- Evaluating the operands of the expression leads to a state in which it is this operation. The list of a
method may be that of a call such as `xs.push(v)`, or that of a method taken from a list before. -/
inductive ListOperation.Written : ListOperation → Machine → Expr → Nat → Machine → Prop
  | method {m p q : Machine} {callee : Expr} {arguments : List Expr} {list : ListId} {method : ListMethod}
      {values : List Value} (style : CallStyle) (line : Nat) :
      Evaluates callee m (.listMethod list method) p → EvaluatesAll arguments p values q →
      Written ⟨list, .method method values⟩ m (.call callee style line arguments) line q
  | item {m p q : Machine} {callee : Expr} {arguments : List Expr} {list : ListId} {values : List Value}
      (style : CallStyle) (line : Nat) :
      Evaluates callee m (.list list) p → EvaluatesAll arguments p values q →
      Written ⟨list, .item values⟩ m (.call callee style line arguments) line q
  | setItem {m p q r : Machine} {object index value : Expr} {list : ListId} {i v : Value} (line : Nat) :
      Evaluates object m (.list list) p → Evaluates index p i q → Evaluates value q v r →
      Written ⟨list, .setItem i v⟩ m (.setElement object [index] .plain line value) line r

section Operations
variable {m q : Machine} {e : Expr} {line : Nat} {operation : ListOperation}

/-- However it is written, the operation is done to the store. -/
theorem ListOperation.Written.evaluate_eq (h : operation.Written m e line q) :
    WithFuel fun fuel => evaluate fuel e m = onStore line operation.perform q := by
  cases h with
  | @method m p q callee arguments list method values style line hf hs =>
    exact .of_succ (.of_succ ((evaluate_call hf hs style line).mono fun fuel h =>
      h.trans (congrFun (call_listMethod fuel list method values line) q)))
  | @item m p q callee arguments list values style line hf hs =>
    exact .of_succ (.of_succ ((evaluate_call hf hs style line).mono fun fuel h =>
      h.trans (congrFun (call_list fuel list values line) q)))
  | @setItem m p p' q object index value list i v line ho hi hv =>
    refine .of_succ ((ho.and ((EvaluatesAll.cons hi (.nil p')).and hv)).mono fun fuel ⟨ho, hi, hv⟩ => ?_)
    have hstore := congrFun (onStore_pure line (fun s => s.setItemAt list i v) v) q
    exact (bind_done ho).trans ((bind_done hi).trans ((bind_done hv).trans hstore))

/-- An outcome in the terms of the reference: the answer and the machine after it, and for a complaint the line
to blame. -/
inductive Outcome.Answers (line : Nat) : Outcome Value → Except Complaint Value → Machine → Prop
  | ok {v : Value} {m : Machine} : Answers line (.done v m) (.ok v) m
  | error {fault : Fault} {m : Machine} : Answers line (.failed ⟨fault, line⟩ m) (.error fault.complaint) m

theorem Outcome.Answers.unique {o : Outcome Value} {answer answer' : Except Complaint Value}
    {m m' : Machine} (h : o.Answers line answer m) (h' : o.Answers line answer' m') :
    answer' = answer ∧ m' = m := by
  cases h <;> cases h' <;> exact ⟨rfl, rfl⟩

theorem answers_onStore (line : Nat) (operation : Store → Except Fault Value × Store) (m : Machine) :
    (onStore line operation m).Answers line (Store.told (operation m.store)).1
      { m with store := (operation m.store).2 } := by
  unfold onStore Store.told
  rcases operation m.store with ⟨_ | v, s⟩
  · exact .error
  · exact .ok

/-- The expression comes to an end with this answer. -/
def Performs (e : Expr) (line : Nat) (m : Machine) (answer : Except Complaint Value) (m' : Machine) : Prop :=
  WithFuel fun fuel => (evaluate fuel e m).Answers line answer m'

theorem Performs.unique {answer answer' : Except Complaint Value} {m' m'' : Machine}
    (h : Performs e line m answer m') (h' : Performs e line m answer' m'') : answer' = answer ∧ m'' = m' := by
  obtain ⟨fuel, h, h'⟩ := (WithFuel.and h h').exists_fuel
  exact h.unique h'

/-- An operation ends as the reference says. -/
theorem ListOperation.Written.performs (h : operation.Written m e line q)
    (hlist : operation.list < q.store.lists.size) :
    Performs e line m (q.store.sequences.step operation).1
      { q with store := (operation.perform q.store).2 } := by
  refine h.evaluate_eq.mono fun fuel h => ?_
  rw [h, ← told_perform hlist]
  exact answers_onStore line operation.perform q

theorem ListOperation.Written.step {answer : Except Complaint Value} {m' : Machine}
    (h : operation.Written m e line q) (hlist : operation.list < q.store.lists.size)
    (hperforms : Performs e line m answer m') :
    q.store.sequences.step operation = (answer, m'.store.sequences) := by
  obtain ⟨rfl, rfl⟩ := (h.performs hlist).unique hperforms
  rw [← told_perform hlist]
  rfl

end Operations

/-! ## Rows of operations -/

/-- Operations one after the other, and their answers. An operation strikes where the lists are as the one
before left them. The evaluation of its operands may begin in any state, also in front of the operation
before, as it does in `xs.push(xs.pop())`. -/
inductive Course : Machine → List (ListOperation × Except Complaint Value) → Machine → Prop
  | nil (m : Machine) : Course m [] m
  | cons {m start struck after m' : Machine} {operation : ListOperation} {e : Expr} {line : Nat}
      {answer : Except Complaint Value} {rest : List (ListOperation × Except Complaint Value)} :
      operation.Written start e line struck → struck.store.lists = m.store.lists →
      operation.list < m.store.lists.size → Performs e line start answer after → Course after rest m' →
      Course m ((operation, answer) :: rest) m'

theorem Store.sequences_congr {s s' : Store} (h : s'.lists = s.lists) : s'.sequences = s.sequences := by
  unfold Store.sequences Store.items
  rw [h]

/-! ### Writing operations down -/

/-- Names for operands, all different. -/
def operandName (k : Nat) : String := String.ofList (List.replicate k 'x')

/-- The bindings of operands to their names, from the `k`-th name on. -/
def operandTable : Nat → List Value → Table Value
  | _, [] => []
  | k, v :: rest => (operandName k, v) :: operandTable (k + 1) rest

/-- A use of an operand. -/
def operand (k : Nat) : Expr := .reference ⟨0, ⟨operandName k, 1⟩⟩

theorem get?_operandTable {values : List Value} {i : Nat} {v : Value} (h : values[i]? = some v) (k : Nat) :
    (operandTable k values).get? (operandName (k + i)) = some v := by
  induction values generalizing k i with
  | nil => cases h
  | cons first rest ih =>
    cases i with
    | zero =>
      cases h
      exact if_pos rfl
    | succ i =>
      have hne : operandName k ≠ operandName (k + (i + 1)) := by
        intro hname
        have hlength := congrArg String.length hname
        simp [operandName] at hlength
      have hrest := ih h (k + 1)
      rw [Nat.add_right_comm, Nat.add_assoc] at hrest
      exact (if_neg hne).trans hrest

/-- The machine with names for values, and with no depths noted. -/
def Machine.withOperands (m : Machine) (values : List Value) : Machine :=
  { m with
    store := (m.store.newScope (operandTable 0 values) none).2
    globals := m.store.scopes.size
    depths := {} }

section Operands
variable (m : Machine) (values : List Value)

theorem evaluates_operand {k : Nat} {v : Value} (h : values[k]? = some v) :
    Evaluates (operand k) (m.withOperands values) v (m.withOperands values) := by
  have hget := get?_operandTable h 0
  rw [Nat.zero_add] at hget
  have hbinding : (m.withOperands values).store.binding? m.store.scopes.size (operandName k) = some v :=
    (Store.newScope_binding _ _ _ _ _).trans ((if_pos rfl).trans hget)
  have hbinder := Store.binder_of_bound (Option.isSome_of_eq_some hbinding)
  have hread : readReference ⟨0, ⟨operandName k, 1⟩⟩ (m.withOperands values) =
      .done v (m.withOperands values) := by
    change ofOption 1 (.undefinedVariable (operandName k))
      (((m.withOperands values).store.binder? m.store.scopes.size (operandName k)).bind fun holder =>
        (m.withOperands values).store.binding? holder (operandName k)) (m.withOperands values) = _
    rw [hbinder, Option.bind_some, hbinding]
    rfl
  exact .of_succ (.of_forall fun _ => hread)

theorem evaluatesAll_operands (k : Nat) (rest : List Value) (h : ∀ i, values[k + i]? = rest[i]?) :
    EvaluatesAll ((List.range' k rest.length).map operand) (m.withOperands values) rest
      (m.withOperands values) := by
  induction rest generalizing k with
  | nil => exact .nil _
  | cons v rest ih =>
    have hrest : ∀ i, values[k + 1 + i]? = rest[i]? := by
      intro i
      rw [Nat.add_right_comm]
      exact h (i + 1)
    exact .cons (evaluates_operand m values (h 0)) (ih (k + 1) hrest)

/-- Every operation can be written, with its operands as the values of names. -/
theorem ListOperation.exists_written (operation : ListOperation) :
    ∃ start e line, operation.Written start e line start ∧ start.store.lists = m.store.lists := by
  obtain ⟨list, action⟩ := operation
  cases action with
  | method method arguments =>
    have hcallee := evaluates_operand m (.listMethod list method :: arguments) (k := 0) rfl
    have harguments := evaluatesAll_operands m (.listMethod list method :: arguments) 1 arguments fun i =>
      congrArg (_[·]?) (Nat.add_comm 1 i)
    exact ⟨_, _, _, .method .parens 1 hcallee harguments, rfl⟩
  | item arguments =>
    have hcallee := evaluates_operand m (.list list :: arguments) (k := 0) rfl
    have harguments := evaluatesAll_operands m (.list list :: arguments) 1 arguments fun i =>
      congrArg (_[·]?) (Nat.add_comm 1 i)
    exact ⟨_, _, _, .item .parens 1 hcallee harguments, rfl⟩
  | setItem index value =>
    have hobject := evaluates_operand m [.list list, index, value] (k := 0) rfl
    have hindex := evaluates_operand m [.list list, index, value] (k := 1) rfl
    have hvalue := evaluates_operand m [.list list, index, value] (k := 2) rfl
    exact ⟨_, _, _, .setItem 1 hobject hindex hvalue, rfl⟩

/-- Every row of operations on lists that are there is one of a program. -/
theorem exists_course {operations : List ListOperation} (h : m.store.sequences.There operations) :
    ∃ trace m', Course m trace m' ∧ trace.map Prod.fst = operations := by
  induction operations generalizing m with
  | nil => exact ⟨[], m, .nil m, rfl⟩
  | cons operation rest ih =>
    obtain ⟨hlist, hrest⟩ := h
    obtain ⟨start, e, line, hwritten, hlists⟩ := operation.exists_written m
    have hstart : operation.list < start.store.lists.size := hlists ▸ hlist
    have hperforms := hwritten.performs hstart
    have hstep := hwritten.step hstart hperforms
    rw [Store.sequences_congr hlists] at hstep
    rw [hstep] at hrest
    obtain ⟨trace, m', hcourse, htrace⟩ := ih _ hrest
    exact ⟨_, m', .cons hwritten hlists hlist hperforms hcourse, congrArg (List.cons operation) htrace⟩

end Operands

section
variable {m m' : Machine} {trace : List (ListOperation × Except Complaint Value)}

/-- The answers and the lists are those of the reference. -/
theorem Course.refines (h : Course m trace m') :
    m.store.sequences.run (trace.map Prod.fst) = (trace.map Prod.snd, m'.store.sequences) := by
  induction h with
  | nil m => rfl
  | @cons m start struck after m' operation e line answer rest hwritten hlists hlist hperforms hrest ih =>
    have hstep : m.store.sequences.step operation = (answer, after.store.sequences) := by
      rw [← Store.sequences_congr hlists]
      exact hwritten.step (hlists ▸ hlist) hperforms
    rw [List.map_cons, Sequences.run_cons, hstep, ih, List.map_cons]

section
variable {operation : ListOperation} {answer : Except Complaint Value}
  {rest : List (ListOperation × Except Complaint Value)}

theorem Course.first_answer (h : Course m ((operation, answer) :: rest) m') :
    (m.store.sequences.step operation).1 = answer :=
  (List.cons.inj (Prod.mk.inj h.refines).1).1

theorem Course.rest_sequences (h : Course m ((operation, answer) :: rest) m') :
    ((m.store.sequences.step operation).2.run (rest.map Prod.fst)).2 = m'.store.sequences :=
  (Prod.mk.inj h.refines).2

end

/-- An operation that fails changes no list. -/
theorem Course.of_error {operation : ListOperation} {complaint : Complaint}
    (h : Course m [(operation, .error complaint)] m') : m'.store.sequences = m.store.sequences :=
  h.rest_sequences.symm.trans (m.store.sequences.apply_error h.first_answer)

/-- A slice is a list that was not there. The lists that were there, the one it was taken from among them, are
changed by later operations on themselves only, and so by none on the slice. -/
theorem Course.of_slice {list : ListId} {arguments : List Value} {answer : Value}
    {rest : List (ListOperation × Except Complaint Value)}
    (h : Course m ((⟨list, .method .slice arguments⟩, .ok answer) :: rest) m') :
    ∃ copy, answer = .list copy ∧ m.store.lists.size ≤ copy ∧
      ∀ other < m.store.lists.size, (∀ entry ∈ rest, entry.1.list ≠ other) →
        m'.store.sequences.contents other = m.store.sequences.contents other := by
  have hanswer := h.first_answer
  have hrest := h.rest_sequences
  rcases m.store.sequences.step_slice list arguments with ⟨copy, hstep⟩ | ⟨complaint, hstep⟩
  · rw [hstep] at hanswer hrest
    cases hanswer
    refine ⟨m.store.lists.size, rfl, Nat.le_refl _, fun other hother hne => ?_⟩
    have hafter := (m.store.sequences.add copy).contents_run (Nat.lt_succ_of_lt hother)
      (List.forall_mem_map.2 hne)
    rw [hrest] at hafter
    exact hafter.trans (if_neg (Nat.ne_of_lt hother))
  · rw [hstep] at hanswer
    cases hanswer

end

/-! ## Ways of writing an operation -/

/-- The machine after both outcomes is the same, and so is the error if they end in one. -/
inductive Outcome.SameEffect : Outcome Value → Outcome Value → Prop
  | done {v v' : Value} {m : Machine} : SameEffect (.done v m) (.done v' m)
  | failed {e : RuntimeError} {m : Machine} : SameEffect (.failed e m) (.failed e m)

section Ways
variable {m p q r : Machine} {list : ListId} {object : Expr} {name : Name}

theorem get_at_agrees {arguments : List Expr} {values : List Value} (ho : Evaluates object m (.list list) p)
    (hs : EvaluatesAll arguments p values q) (hname : name.text = "get_at") (style style' : CallStyle)
    (line : Nat) : WithFuel fun fuel => evaluate fuel (.call (.get object name) style line arguments) m =
      evaluate fuel (.call object style' line arguments) m := by
  have hmethod : ListMethod.ofName? name.text = some .getAt := by
    rw [hname]
    rfl
  have hget := (ListOperation.Written.method style line (ho.get hmethod) hs).evaluate_eq
  have hcall := (ListOperation.Written.item style' line ho hs).evaluate_eq
  exact (hget.and hcall).mono fun fuel ⟨hget, hcall⟩ => hget.trans hcall.symm

/-- What an operation that is done yields makes no difference to what it does. -/
theorem sameEffect_onStore {α : Type} (line : Nat) (operation : Store → Except Fault α × Store)
    (value value' : Value) (m : Machine) :
    (onStore line (fun s => ((operation s).1.map fun _ => value, (operation s).2)) m).SameEffect
      (onStore line (fun s => ((operation s).1.map fun _ => value', (operation s).2)) m) := by
  unfold onStore
  dsimp only
  rcases operation m.store with ⟨_ | a, s⟩
  · exact .failed
  · exact .done

theorem set_at_agrees {index value : Expr} {i v : Value} (ho : Evaluates object m (.list list) p)
    (hi : Evaluates index p i q) (hv : Evaluates value q v r) (hname : name.text = "set_at")
    (style : CallStyle) (line : Nat) : WithFuel fun fuel =>
      (evaluate fuel (.setElement object [index] .plain line value) m).SameEffect
        (evaluate fuel (.call (.get object name) style line [index, value]) m) := by
  have hmethod : ListMethod.ofName? name.text = some .setAt := by
    rw [hname]
    rfl
  have hset := (ListOperation.Written.setItem line ho hi hv).evaluate_eq
  have hcall := (ListOperation.Written.method style line (ho.get hmethod)
    (.cons hi (.cons hv (.nil r)))).evaluate_eq
  refine (hset.and hcall).mono fun fuel ⟨hset, hcall⟩ => ?_
  rw [hset, hcall]
  exact sameEffect_onStore line (fun s => s.setItemAt list i v) v .nil r

end Ways

/-- Lists refine mutable sequences. -/
theorem lists_refine_sequences :
    -- Every operation on a list that is there comes to an end.
    (∀ (operation : ListOperation) (e : Expr) (line : Nat) (m struck : Machine),
      operation.Written m e line struck → operation.list < struck.store.lists.size →
        ∃ answer after, Performs e line m answer after) ∧
    -- Every row of operations on lists that are there can be run.
    (∀ (m : Machine) (operations : List ListOperation), m.store.sequences.There operations →
      ∃ trace m', Course m trace m' ∧ trace.map Prod.fst = operations) ∧
    -- The answers to all operations of a row and the lists after it are those of the sequences.
    (∀ (m m' : Machine) (trace : List (ListOperation × Except Complaint Value)), Course m trace m' →
      m.store.sequences.run (trace.map Prod.fst) = (trace.map Prod.snd, m'.store.sequences)) ∧
    -- `xs[i]` and `xs(i)` do what `xs.get_at(i)` does, with arguments of any number and kind.
    (∀ (object : Expr) (arguments : List Expr) (list : ListId) (values : List Value) (m p q : Machine)
      (name : Name) (style style' : CallStyle) (line : Nat), Evaluates object m (.list list) p →
        EvaluatesAll arguments p values q → name.text = "get_at" →
          WithFuel fun fuel => evaluate fuel (.call (.get object name) style line arguments) m =
            evaluate fuel (.call object style' line arguments) m) ∧
    -- `xs[i] = v` does what `xs.set_at(i, v)` does.
    (∀ (object index value : Expr) (list : ListId) (i v : Value) (m p q r : Machine) (name : Name)
      (style : CallStyle) (line : Nat), Evaluates object m (.list list) p → Evaluates index p i q →
        Evaluates value q v r → name.text = "set_at" →
          WithFuel fun fuel => (evaluate fuel (.setElement object [index] .plain line value) m).SameEffect
            (evaluate fuel (.call (.get object name) style line [index, value]) m)) ∧
    -- A slice is a list that was not there, and no operation on it changes the lists that were there.
    (∀ (list : ListId) (arguments : List Value) (answer : Value) (m m' : Machine)
      (rest : List (ListOperation × Except Complaint Value)),
        Course m ((⟨list, .method .slice arguments⟩, .ok answer) :: rest) m' →
          ∃ copy, answer = .list copy ∧ m.store.lists.size ≤ copy ∧
            ∀ other < m.store.lists.size, (∀ entry ∈ rest, entry.1.list ≠ other) →
              m'.store.sequences.contents other = m.store.sequences.contents other) ∧
    -- An operation that fails changes no list.
    (∀ (operation : ListOperation) (complaint : Complaint) (m m' : Machine),
      Course m [(operation, .error complaint)] m' → m'.store.sequences = m.store.sequences) := by
  refine ⟨?_, ?_, ?_, ?_, ?_, ?_, ?_⟩
  · intro operation e line m struck hwritten hlist
    exact ⟨_, _, hwritten.performs hlist⟩
  · intro m operations hthere
    exact exists_course m hthere
  · intro m m' trace h
    exact h.refines
  · intro object arguments list values m p q name style style' line ho hs hname
    exact get_at_agrees ho hs hname style style' line
  · intro object index value list i v m p q r name style line ho hi hv hname
    exact set_at_agrees ho hi hv hname style line
  · intro list arguments answer m m' rest h
    exact h.of_slice
  · intro operation complaint m m' h
    exact h.of_error

/-- A list that gets to contain itself, an index behind its end, a slice of it, and a change of the slice. -/
theorem lists_refine_sequences_sample : ∃ trace m', Course sampleMachine trace m' ∧
    trace.map Prod.fst = [⟨0, .method .push [.list 0]⟩, ⟨0, .item [.int 2]⟩,
      ⟨0, .method .slice [.int 0, .int 2]⟩, ⟨1, .setItem (.int 0) .nil⟩] ∧
    trace.map Prod.snd = [.ok .nil, .error ⟨.index, "Index 2 is out of range."⟩, .ok (.list 1), .ok .nil] ∧
    m'.store.sequences.contents 0 = [.int 7, .list 0] ∧
    m'.store.sequences.contents 1 = [.nil, .list 0] := by
  obtain ⟨-, hexists, hrefines, -⟩ := lists_refine_sequences
  obtain ⟨trace, m', hcourse, htrace⟩ := hexists sampleMachine [⟨0, .method .push [.list 0]⟩,
    ⟨0, .item [.int 2]⟩, ⟨0, .method .slice [.int 0, .int 2]⟩, ⟨1, .setItem (.int 0) .nil⟩]
    ⟨Nat.zero_lt_one, Nat.zero_lt_one, Nat.zero_lt_one, Nat.one_lt_two, trivial⟩
  have hrun := hrefines sampleMachine m' trace hcourse
  rw [htrace] at hrun
  have hcontents (list : ListId) := congrArg (fun after => after.2.contents list) hrun.symm
  exact ⟨trace, m', hcourse, htrace, congrArg Prod.fst hrun.symm, hcontents 0, hcontents 1⟩

end LoxLang
