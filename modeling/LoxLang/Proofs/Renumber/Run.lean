import LoxLang.Proofs.Renumber.Steps

/-!
# Running with other numbers

The evaluator shadows itself, also if it is given more fuel. So a run goes on in the same way beside entries
that nothing refers to, and with more fuel than it uses.
-/

namespace LoxLang

theorem parameterTable_renumber (g : Gap) (params : List Name) (arguments : List Value) :
    parameterTable params (arguments.map (Value.renumber g)) =
      (parameterTable params arguments).mapValues (Value.renumber g) := by
  unfold parameterTable
  rw [List.zip_map_right, List.foldl_map, Table.mapValues_foldl_put]
  rfl

theorem parameterTable_within {x : Extent} (params : List Name) {arguments : List Value}
    (h : ∀ v ∈ arguments, v.Within x) : (parameterTable params arguments).All (Value.Within x) :=
  .foldl_put (List.forall_mem_nil _) fun pair hp => h pair.2 (List.of_mem_zip hp).2

section Bodies
variable {g : Gap} {m m' : Machine} (h : m.Beside g m')
include h

theorem shadows_inCall {f f' : Closure} {arguments arguments' : List Value} {run run' : Effect Flow}
    (hf : f.Beside g m.extent f') (ha : ValuesBeside g m.extent arguments arguments')
    (hrun : ∀ n n' : Machine, n.Beside g n' →
      Shadows g n (fun x => Flow.Alike (Value.Beside g x)) (run n) (run' n')) :
    Shadows g m (Value.Beside g) (Operations.plain.inCall f arguments run m)
      (Operations.plain.inCall f' arguments' run' m') := by
  obtain ⟨hw, rfl⟩ := hf
  obtain ⟨declaration, outer, isInitializer⟩ := f
  have hwithin := parameterTable_within declaration.params ha.within
  have houter (around : ScopeId) (ho : some outer = some around) : around < m.store.scopes.size := by
    cases ho
    exact hw
  have hscope := shadows_newScope h (parameterTable declaration.params arguments)
    (parameterTable declaration.params arguments') (some outer) (some (g.scope outer)) hwithin
    (by rw [ha.eq, parameterTable_renumber]) houter rfl
  refine hscope.bind ?_
  rintro scope _ n n' hn _ ⟨hlt, rfl⟩
  refine (shadows_within hn hlt fun n n' hn _ => hrun n n' hn).bind ?_
  intro flow flow' n n' hn _ hflow
  cases isInitializer with
  | true =>
    have hfound : Option.Rel (Value.Beside g n.extent) (n.store.lookupAt? outer 0 "this")
        (n'.store.lookupAt? (g.scope outer) 0 "this") := by
      rw [hn.store.lookupAt?]
      refine optionRel_of_map rfl fun value hv => ?_
      obtain ⟨holder, -, hb⟩ := Option.bind_eq_some_iff.1 hv
      exact ⟨hn.store.sound.binding hb, rfl⟩
    refine (shadows_read (R := fun x => Option.Rel (Value.Beside g x)) hn hfound).bind ?_
    intro found found' n n' hn _ hfound
    exact shadows_ofOption hn _ _ hfound
  | false =>
    cases hflow with
    | normal => exact shadows_yield hn (Value.Simple.beside (v := .nil) trivial g _)
    | returned hv => exact shadows_yield hn hv

theorem shadows_inBlock (body : List Stmt) {run run' : Effect Flow}
    (hrun : ∀ n n' : Machine, n.Beside g n' →
      Shadows g n (fun x => Flow.Alike (Value.Beside g x)) (run n) (run' n')) :
    Shadows g m (fun x => Flow.Alike (Value.Beside g x)) (Operations.plain.inBlock body run m)
      (Operations.plain.inBlock body run' m') := by
  refine (shadows_currentScope h).bind ?_
  rintro current _ n n' hn _ ⟨hlt, rfl⟩
  have houter (around : ScopeId) (ho : some current = some around) : around < n.store.scopes.size := by
    cases ho
    exact hlt
  have hscope := shadows_newScope hn [] [] (some current) (some (g.scope current))
    (List.forall_mem_nil _) rfl houter rfl
  refine hscope.bind ?_
  rintro scope _ n n' hn _ ⟨hlt, rfl⟩
  exact shadows_within hn hlt fun n n' hn _ => hrun n n' hn

end Bodies

/-! ## Whole runs -/

theorem Value.Beside.alike {g : Gap} {x : Extent} {v v' : Value} (h : v.Beside g x v') :
    v.Alike (Closure.Beside g x) (ClassObject.Beside g x) v' := by
  obtain ⟨hw, rfl⟩ := h
  cases v with
  | function id f => exact .function id _ ⟨hw.2, rfl⟩
  | classObject c => exact .classObject ⟨hw, rfl⟩
  | _ => constructor

/-- What has other numbers is alike, as far as the numbers of entries have grown. -/
def Gap.likeness (g : Gap) : Likeness where
  World := Extent
  Later x y := x ≤ y
  value := Value.Beside g
  closure := Closure.Beside g
  class_ := ClassObject.Beside g
  expr _ := Eq
  stmt _ := Eq
  line := Eq
  name := Eq
  value_later hl h := h.mono hl
  closure_later hl h := h.mono hl
  class_later hl h := h.mono hl
  expr_later _ h := h
  stmt_later _ h := h
  value_alike := Value.Beside.alike
  expr_alike h := h ▸ Expr.alike_self (fun _ => rfl) (fun _ => rfl) (fun _ => rfl) _
  stmt_alike h := h ▸ Stmt.alike_self (fun _ => rfl) (fun _ => rfl) _
  closure_arity h := h.eq ▸ rfl
  class_arity := by
    rintro _ c _ ⟨-, rfl⟩
    exact c.renumber_arity g
  name_line := @Name.line_eq
  literal _ value := value.value_simple.beside _ _

/-- The operations shadow themselves; the second run may have more fuel. -/
def Gap.simulation (g : Gap) : Simulation g.likeness .plain .plain where
  Related x R effect effect' := ∀ m m' : Machine, m.Beside g m' → m.extent = x → Shadows g m R (effect m) (effect' m')
  fuels fuel fuel' := fuel ≤ fuel'
  pure h := by
    rintro m m' hm rfl
    exact shadows_yield hm h
  bind h hn := by
    rintro m m' hm rfl
    refine (h m m' hm rfl).bind ?_
    exact fun a a' n n' hb hle hr => hn n.extent hle a a' hr n n' hb rfl
  holding _ _ h := h
  entering _ _ _ _ h := h
  fail := by
    rintro _ _ _ line _ fault rfl m m' hm rfl
    exact shadows_fail hm line fault
  unary := by
    rintro _ line _ _ _ operator rfl hv m m' hm rfl
    exact shadows_unary hm operator line hv
  binary := by
    rintro _ line _ _ _ _ _ operator rfl hv hu m m' hm rfl
    exact shadows_binary hm operator line hv hu
  reference := by
    rintro _ target _ ⟨⟩ m m' hm rfl
    exact shadows_readReference hm target
  receiver := by
    rintro _ target _ ⟨⟩ m m' hm rfl
    exact shadows_readReference hm target
  inherited := by
    rintro _ target _ method _ ⟨⟩ m m' hm rfl
    exact shadows_inheritedMethod hm target method
  assignName := by
    rintro _ target _ operator e _ _ _ ⟨⟩ hv m m' hm rfl
    exact shadows_assignName hm (.assign target operator e) target operator hv
  property := by
    rintro _ _ _ name _ hv rfl m m' hm rfl
    exact shadows_property hm name hv
  assignField := by
    rintro _ id _ c _ name _ _ _ operator ho rfl hv m m' hm rfl
    exact shadows_assignField hm name operator ho hv
  newList := by
    rintro _ vs vs' hvs m m' hm rfl
    refine (shadows_newList hm (valuesBeside hvs)).bind ?_
    rintro id _ n n' hn _ ⟨hlt, rfl⟩
    exact shadows_yield hn ⟨hlt, rfl⟩
  itemOf := by
    rintro _ list _ _ _ line _ ⟨-, ho⟩ hv rfl m m' hm rfl
    cases ho
    exact shadows_itemOf hm list line hv
  assignItem := by
    rintro _ list _ _ _ _ _ line _ operator ⟨-, ho⟩ hi rfl hv m m' hm rfl
    cases ho
    exact shadows_assignItem hm list operator line hi hv
  builtin := by
    rintro _ fuel _ line _ _ _ builtin hf hvs rfl m m' hm rfl
    exact shadows_builtin hm builtin hf line (valuesBeside hvs)
  listMethod := by
    rintro _ list _ method _ _ line _ ⟨-, ho⟩ hvs rfl m m' hm rfl
    cases ho
    exact shadows_callListMethod hm list method line (valuesBeside hvs)
  newInstance := by
    rintro _ c c' hc m m' hm rfl
    refine (shadows_newInstance hm).imp ?_
    rintro x id _ hle ⟨hlt, rfl⟩
    have hc := ClassObject.Beside.mono hc hle
    exact ⟨⟨hlt, hc.within⟩, congrArg (Value.instanceOf _) hc.eq⟩
  initializer hc hv := by
    refine optionRel_imp (fun f f' hf => ?_) (ClassObject.Beside.method? hc initializerName)
    rintro m m' hm rfl
    exact shadows_bindReceiver hm hf hv
  inCall := by
    rintro _ f _ vs vs' run run' ⟨hw, rfl⟩ hvs hrun m m' hm rfl
    exact shadows_inCall hm ⟨hw, rfl⟩ (valuesBeside hvs) fun n n' hn =>
      hrun n.extent (forall₂_self (fun _ => rfl) _) n n' hn rfl
  inBlock := by
    rintro _ body _ run run' ⟨⟩ hrun m m' hm rfl
    exact shadows_inBlock hm body fun n n' hn =>
      hrun n.extent (forall₂_self (fun _ => rfl) _) n n' hn rfl
  declare := by
    rintro _ name _ _ _ _ _ ⟨⟩ hv m m' hm rfl
    exact shadows_defineHere hm name.text hv
  defineFunction := by
    rintro _ f _ ⟨⟩ m m' hm rfl
    exact shadows_defineFunction hm f
  defineClass := by
    rintro _ name _ superclass _ methods _ ⟨⟩ m m' hm rfl
    exact shadows_defineClass hm name superclass methods

/-- With no less fuel the evaluator shadows itself. -/
theorem Gap.agree (g : Gap) {fuel fuel' : Nat} (hf : fuel ≤ fuel') :
    g.simulation.Agree (.withFuel fuel) (.withFuel fuel') := by
  rw [← Evaluator.evaluator_plain, ← Evaluator.evaluator_plain]
  refine g.simulation.agree_evaluator ?_ ?_ hf
  · intro fuel' _
    constructor <;> intros <;> intro m m' hm _ <;> exact shadows_exhausted hm.sound _
  · intro fuel fuel' hf
    obtain ⟨rest, rfl⟩ := Nat.exists_eq_succ_of_ne_zero (Nat.ne_of_gt (Nat.zero_lt_of_lt hf))
    exact ⟨rest, rfl, Nat.le_of_succ_le_succ hf⟩

section
variable (g : Gap) {fuel fuel' : Nat} (hf : fuel ≤ fuel') {m m' : Machine} (h : m.Beside g m')
include hf h

theorem shadows_evaluate (e : Expr) : Shadows g m (Value.Beside g) (evaluate fuel e m) (evaluate fuel' e m') :=
  (g.agree hf).evaluate rfl m m' h rfl

theorem shadows_runProgram (program : List Stmt) : Shadows g m (fun _ _ _ => True) (runProgram fuel program m)
    (runProgram fuel' program m') := by
  have hrun := (g.agree hf).runProgram (w := m.extent) (forall₂_self (fun _ => rfl) program) m m' h rfl
  rwa [Evaluator.runProgram_withFuel, Evaluator.runProgram_withFuel] at hrun

end

end LoxLang
