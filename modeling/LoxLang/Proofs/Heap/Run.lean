import LoxLang.Proofs.Heap.Rules

/-!
# Running on the heap

From a well-formed machine every function of the evaluator goes from change to change, by induction on the
fuel. So a run that is stopped by an error, or that is out of fuel, has not broken anything either.
-/

namespace LoxLang

/-- A value that is returned is proper. -/
def FlowProper (x : Extent) (flow : Flow) : Prop := ∀ value, flow = .returned value → value.Proper x

/-- With this amount of fuel, all functions of the evaluator go from change to change. -/
structure LeadsAll (fuel : Nat) : Prop where
  evaluate (e : Expr) {m : Machine} : m.WellFormed → Leads m (fun x v => v.Proper x) (evaluate fuel e m)
  evaluateAll (es : List Expr) {m : Machine} : m.WellFormed → Leads m ValuesProper (evaluateAll fuel es m)
  call (line : Nat) {callee : Value} {arguments : List Value} {m : Machine} : m.WellFormed →
    callee.Proper m.extent → ValuesProper m.extent arguments →
    Leads m (fun x v => v.Proper x) (call fuel callee arguments line m)
  callClosure {closure : Closure} {arguments : List Value} {m : Machine} : m.WellFormed →
    closure.Within m.extent → ValuesProper m.extent arguments →
    Leads m (fun x v => v.Proper x) (callClosure fuel closure arguments m)
  instantiate {c : ClassObject} {arguments : List Value} {m : Machine} : m.WellFormed →
    (Value.classObject c).Proper m.extent → ValuesProper m.extent arguments →
    Leads m (fun x v => v.Proper x) (instantiate fuel c arguments m)
  execute (s : Stmt) {m : Machine} : m.WellFormed → Leads m FlowProper (execute fuel s m)
  executeAll (body : List Stmt) {m : Machine} : m.WellFormed →
    Leads m FlowProper (executeAll fuel body m)
  executeLoop (condition : Expr) (body : Stmt) {m : Machine} : m.WellFormed →
    Leads m FlowProper (executeLoop fuel condition body m)

section Step
variable {fuel : Nat} (ih : LeadsAll fuel) {m : Machine} (h : m.WellFormed)
include ih h

theorem leads_evaluate (e : Expr) : Leads m (fun x v => v.Proper x) (evaluate (fuel + 1) e m) := by
  cases e with
  | literal value => exact leads_yield h (value.value_simple.proper _)
  | grouping inner => exact ih.evaluate inner h
  | unary operator line right =>
    exact (ih.evaluate right h).bind fun value _ hn _ _ => leads_unary hn operator line value
  | binary left operator line right =>
    refine (ih.evaluate left h).bind fun first n hn _ _ => ?_
    exact (ih.evaluate right hn).bind fun second _ hn _ _ => leads_binary hn operator line first second
  | logical left operator right =>
    refine (ih.evaluate left h).bind fun value n hn _ hv => ?_
    have hright := ih.evaluate right hn
    have hleft : Leads n (fun x v => v.Proper x) ((pure value : Effect Value) n) := leads_yield hn hv
    cases operator <;> cases value.isTruthy <;> first | exact hleft | exact hright
  | reference target => exact leads_readReference h target
  | assign target operator value =>
    refine (ih.evaluate value h).bind fun found n hn _ hfound => ?_
    refine (leads_depthOf hn target.id).bind fun depth n hn hle _ => ?_
    have hold := leads_readName hn depth target.name
    refine (leads_combine hn operator target.name.line (hfound.mono hle) hold).bind
      fun result n hn _ hr => ?_
    exact (leads_writeName hn depth target.name hr).bind fun _ _ hn hle _ => leads_yield hn (hr.mono hle)
  | call callee style line arguments =>
    refine (ih.evaluate callee h).bind fun value n hn _ hv => ?_
    exact (ih.evaluateAll arguments hn).bind fun values _ hn hle hvs => ih.call line hn (hv.mono hle) hvs
  | list line elements =>
    refine (ih.evaluateAll elements h).bind fun items n hn _ hi => ?_
    exact (leads_newList hn hi).bind fun _ _ hn _ hv => leads_yield hn hv
  | get object name =>
    exact (ih.evaluate object h).bind fun value _ hn _ hv => leads_property hn name hv
  | set object name operator value =>
    refine (ih.evaluate object h).bind fun found n hn _ ho => ?_
    cases found with
    | instanceOf id c =>
      refine (ih.evaluate value hn).bind fun found n hn hle hfound => ?_
      have hold := leads_instanceProperty hn name (ho.mono hle)
      refine (leads_combine hn operator name.line hfound hold).bind fun result n hn _ hr => ?_
      exact (leads_setField hn id name.text hr).bind fun _ _ hn hle _ => leads_yield hn (hr.mono hle)
    | _ => exact leads_fail hn _ _
  | setElement object arguments operator line value =>
    refine (ih.evaluate object h).bind fun found n hn _ _ => ?_
    cases found with
    | list id =>
      refine (ih.evaluateAll arguments hn).bind fun indices n hn _ _ => ?_
      rcases indices with _ | ⟨index, _ | ⟨second, rest⟩⟩
      · exact leads_fail hn _ _
      · refine (ih.evaluate value hn).bind fun found n hn _ hfound => ?_
        have hold := leads_itemOf hn id index line
        refine (leads_combine hn operator line hfound hold).bind fun result n hn _ hr => ?_
        exact (leads_setItemAt hn id index line hr).bind fun _ _ hn hle _ => leads_yield hn (hr.mono hle)
      · exact leads_fail hn _ _
    | _ => exact leads_fail hn _ _
  | receiver target => exact leads_readReference h target
  | inherited target method => exact leads_inheritedMethod h target method

theorem leads_evaluateAll (es : List Expr) : Leads m ValuesProper (evaluateAll (fuel + 1) es m) := by
  cases es with
  | nil => exact leads_yield h (List.forall_mem_nil _)
  | cons e rest =>
    refine (ih.evaluate e h).bind fun value n hn _ hv => ?_
    exact (ih.evaluateAll rest hn).bind fun values _ hn hle hvs =>
      leads_yield hn (List.forall_mem_cons.2 ⟨hv.mono hle, hvs⟩)

theorem leads_call (line : Nat) {callee : Value} {arguments : List Value} (hc : callee.Proper m.extent)
    (ha : ValuesProper m.extent arguments) :
    Leads m (fun x v => v.Proper x) (call (fuel + 1) callee arguments line m) := by
  cases callee with
  | function id closure =>
    unfold call
    dsimp only
    split
    · exact ih.callClosure h hc.within.2 ha
    · exact leads_fail h _ _
  | builtin builtin =>
    unfold call
    dsimp only
    split
    · exact leads_builtin h builtin fuel arguments line
    · exact leads_fail h _ _
  | classObject c =>
    unfold call
    dsimp only
    split
    · exact ih.instantiate h hc ha
    · exact leads_fail h _ _
  | listMethod list method =>
    unfold call
    dsimp only
    split
    · exact leads_callListMethod h list method line ha
    · exact leads_fail h _ _
  | list id =>
    rcases arguments with _ | ⟨index, _ | ⟨second, rest⟩⟩
    · exact leads_fail h _ _
    · exact leads_itemOf h id index line
    · exact leads_fail h _ _
  | _ => exact leads_fail h _ _

theorem leads_callClosure {closure : Closure} {arguments : List Value} (hc : closure.Within m.extent)
    (ha : ValuesProper m.extent arguments) :
    Leads m (fun x v => v.Proper x) (callClosure (fuel + 1) closure arguments m) := by
  have hbindings (name : String) (value : Value)
      (hb : (parameterTable closure.declaration.params arguments).get? name = some value) :
      value.Proper m.extent := ha value (parameterTable_values hb)
  refine (leads_newScope h hbindings hc).bind fun scope n hn _ hscope => ?_
  refine (leads_within hn hscope fun n hn _ => ih.executeAll closure.declaration.body hn).bind
    fun flow n hn _ hflow => ?_
  split
  · refine (leads_read (Q := fun x found => ∀ v, found = some v → v.Proper x) hn fun v hv => ?_).bind
      fun found n hn _ hf => leads_ofOption hn _ _ hf
    obtain ⟨holder, -, hb⟩ := Option.bind_eq_some_iff.1 hv
    exact hn.bindings holder "this" v hb
  · cases flow with
    | returned value => exact leads_yield hn (hflow value rfl)
    | normal => exact leads_yield hn (properNil _)

theorem leads_instantiate {c : ClassObject} {arguments : List Value}
    (hc : (Value.classObject c).Proper m.extent) (ha : ValuesProper m.extent arguments) :
    Leads m (fun x v => v.Proper x) (instantiate (fuel + 1) c arguments m) := by
  refine (leads_newInstance h).bind fun id n hn hle hid => ?_
  have hvalue : (Value.instanceOf id c).Proper n.extent := ⟨⟨hid, (hc.mono hle).within⟩, hc.ordered⟩
  have ha : ValuesProper n.extent arguments := fun v hv => (ha v hv).mono hle
  cases hm : c.method? initializerName with
  | none => exact leads_yield hn hvalue
  | some initializer =>
    refine (leads_bindReceiver hn (ClassObject.Within.method? hvalue.within.2 hm) hvalue).bind
      fun closure n hn hle hclosure => ?_
    have hvalue := hvalue.mono hle
    have ha : ValuesProper n.extent arguments := fun v hv => (ha v hv).mono hle
    exact (ih.callClosure hn hclosure ha).bind fun _ _ hn hle _ => leads_yield hn (hvalue.mono hle)

omit ih in
theorem leads_normal : Leads m FlowProper ((pure Flow.normal : Effect Flow) m) :=
  leads_yield h fun _ hv => nomatch hv

omit ih in
theorem leads_returned {value : Value} (hv : value.Proper m.extent) :
    Leads m FlowProper ((pure (Flow.returned value) : Effect Flow) m) :=
  leads_yield h fun _ he => by
    cases he
    exact hv

theorem leads_execute (s : Stmt) : Leads m FlowProper (execute (fuel + 1) s m) := by
  cases s with
  | expression value => exact (ih.evaluate value h).bind fun _ _ hn _ _ => leads_normal hn
  | declare name initializer =>
    have hdefine (value : Value) (n : Machine) (hn : n.WellFormed) (hv : value.Proper n.extent) :
        Leads n FlowProper ((do defineHere name.text value; pure Flow.normal : Effect Flow) n) :=
      (leads_defineHere hn name.text hv).bind fun _ _ hn _ _ => leads_normal hn
    cases initializer with
    | some e => exact (ih.evaluate e h).bind fun value n hn _ hv => hdefine value n hn hv
    | none => exact hdefine .nil m h (properNil _)
  | block body =>
    refine (leads_currentScope h).bind fun current n hn _ hcurrent => ?_
    refine (leads_newScope hn (fun _ _ hb => by cases hb) hcurrent).bind fun scope n hn _ hscope => ?_
    exact leads_within hn hscope fun n hn _ => ih.executeAll body hn
  | branch condition thenBranch elseBranch =>
    refine (ih.evaluate condition h).bind fun value n hn _ _ => ?_
    split
    · exact ih.execute thenBranch hn
    · cases elseBranch with
      | some elseBranch => exact ih.execute elseBranch hn
      | none => exact leads_normal hn
  | loop condition body => exact ih.executeLoop condition body h
  | function declaration =>
    refine (leads_currentScope h).bind fun current n hn _ hcurrent => ?_
    have hclosure : Closure.Within n.extent ⟨declaration, current, false⟩ := hcurrent
    refine (leads_newFunction hn hclosure).bind fun value n hn _ hv => ?_
    exact (leads_defineHere hn declaration.name.text hv).bind fun _ _ hn _ _ => leads_normal hn
  | giveBack keyword value =>
    cases value with
    | some e => exact (ih.evaluate e h).bind fun value _ hn _ hv => leads_returned hn hv
    | none => exact leads_returned h (properNil _)
  | declareClass name superclass methods =>
    exact (leads_defineClass h name superclass methods).bind fun _ _ hn _ _ => leads_normal hn

theorem leads_executeAll (body : List Stmt) : Leads m FlowProper (executeAll (fuel + 1) body m) := by
  cases body with
  | nil => exact leads_normal h
  | cons s rest =>
    refine (ih.execute s h).bind fun flow n hn _ hflow => ?_
    cases flow with
    | returned value => exact leads_returned hn (hflow value rfl)
    | normal => exact ih.executeAll rest hn

theorem leads_executeLoop (condition : Expr) (body : Stmt) :
    Leads m FlowProper (executeLoop (fuel + 1) condition body m) := by
  refine (ih.evaluate condition h).bind fun value n hn _ _ => ?_
  split
  · refine (ih.execute body hn).bind fun flow n hn _ hflow => ?_
    cases flow with
    | returned value => exact leads_returned hn (hflow value rfl)
    | normal => exact ih.executeLoop condition body hn
  · exact leads_normal hn

end Step

theorem leadsAll (fuel : Nat) : LeadsAll fuel := by
  induction fuel with
  | zero => constructor <;> intros <;> exact leads_exhausted ‹_›
  | succ fuel ih =>
    constructor
    case evaluate => exact fun e _ h => leads_evaluate ih h e
    case evaluateAll => exact fun es _ h => leads_evaluateAll ih h es
    case call => exact fun line _ _ _ h hc ha => leads_call ih h line hc ha
    case callClosure => exact fun h hc ha => leads_callClosure ih h hc ha
    case instantiate => exact fun h hc ha => leads_instantiate ih h hc ha
    case execute => exact fun s _ h => leads_execute ih h s
    case executeAll => exact fun body _ h => leads_executeAll ih h body
    case executeLoop => exact fun condition body _ h => leads_executeLoop ih h condition body

theorem leads_runProgram (fuel : Nat) (program : List Stmt) {m : Machine} (h : m.WellFormed) :
    Leads m (fun _ _ => True) (runProgram fuel program m) := by
  induction program generalizing m with
  | nil => exact leads_yield h trivial
  | cons s rest ih => exact ((leadsAll fuel).execute s h).bind fun _ _ hn _ _ => ih hn

end LoxLang
