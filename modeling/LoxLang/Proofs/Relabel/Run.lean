import LoxLang.Proofs.Relabel.Twins
import LoxLang.Proofs.Scoping.Steps

/-!
# Running with other lines and identities

Every operation of the evaluator is alike on pieces of a program and on the same pieces relabelled. For a run
as a whole this means that it ends alike on twin machines.
-/

namespace LoxLang

variable {d : Difference}

/-! ## Names -/

section Names
variable {m m' : Machine}

theorem Twins.holder? (ht : Twins d m m') (depth : Option Nat) (name : String) :
    m'.holder? depth name = m.holder? depth name := by
  unfold Machine.holder?
  cases depth with
  | none =>
    dsimp only
    rw [ht.store, ht.globals, Store.binder?_relabel]
  | some depth =>
    dsimp only
    rw [ht.store, ht.current, Store.binderAt?_relabel]

theorem Twins.binding? (ht : Twins d m m') (scope : ScopeId) (name : String) :
    Option.Rel (SameValue d) (m.store.binding? scope name) (m'.store.binding? scope name) := by
  apply optionRel_of_map (f := Value.relabel d.label)
  · rw [ht.store, Store.binding?_relabel]
  · exact fun value h => ⟨rfl, ht.older.bindings scope name value h⟩

end Names

theorem alike_depthOf {id : NodeId} (h : id < d.next) : Alike d Eq (depthOf id) (depthOf (d.label.id id)) := by
  apply Alike.read
  intro m m' ht
  rw [ht.depths, ht.depths', d.agree id h]

theorem alike_readName (depth : Option Nat) (name : Name) :
    Alike d (SameValue d) (readName depth name) (readName depth (name.relabel d.label)) := by
  have hread : Alike d (Option.Rel (SameValue d))
      (Effect.read fun m =>
        (m.holder? depth name.text).bind fun holder => m.store.binding? holder name.text)
      (Effect.read fun m =>
        (m.holder? depth name.text).bind fun holder => m.store.binding? holder name.text) := by
    apply Alike.read
    intro m m' ht
    rw [ht.holder?]
    cases m.holder? depth name.text with
    | none => exact .none
    | some holder => exact ht.binding? holder name.text
  apply hread.bind
  intro found found' hf
  exact .ofOption rfl hf

theorem alike_define (holder : ScopeId) (name : String) {value value' : Value}
    (h : SameValue d value value') :
    Alike d Eq (Effect.modifyStore fun s => s.define holder name value)
      (Effect.modifyStore fun s => s.define holder name value') := by
  apply Alike.modifyStore
  intro s hs
  rw [h.eq]
  exact ⟨Store.define_relabel d.label s holder name value, hs.define holder name h.older⟩

theorem alike_writeName (depth : Option Nat) (name : Name) {value value' : Value}
    (h : SameValue d value value') : Alike d Eq (writeName depth name value)
      (writeName depth (name.relabel d.label) value') := by
  have hholder : Alike d Eq (holderOf depth name) (holderOf depth (name.relabel d.label)) := by
    have hread : Alike d Eq (Effect.read fun m => m.holder? depth name.text)
        (Effect.read fun m => m.holder? depth name.text) :=
      .read fun m m' ht => (ht.holder? depth name.text).symm
    apply hread.bind
    rintro found _ rfl
    exact .ofOption rfl (optionRel_self fun _ _ => rfl)
  apply hholder.bind
  rintro holder _ rfl
  exact alike_define holder name.text h

theorem alike_readReference {target : Reference} (h : target.id < d.next) :
    Alike d (SameValue d) (readReference target) (readReference (target.relabel d.label)) := by
  apply (alike_depthOf h).bind
  rintro depth _ rfl
  exact alike_readName depth target.name

theorem alike_defineHere (name : String) {value value' : Value} (h : SameValue d value value') :
    Alike d Eq (defineHere name value) (defineHere name value') := by
  apply Alike.currentScope.bind
  rintro scope _ rfl
  exact alike_define scope name h

theorem alike_unary (operator : UnaryOperator) (line : Nat) {right right' : Value}
    (h : SameValue d right right') : Alike d (SameValue d)
      (Effect.ofExcept line (operator.apply right))
      (Effect.ofExcept (d.label.line line) (operator.apply right')) := by
  apply Alike.ofExcept (f := id) rfl
  · rw [h.eq, UnaryOperator.apply_relabel]
    cases operator.apply right <;> rfl
  · exact fun value hv => .of_codeFree (UnaryOperator.apply_codeFree hv)

theorem alike_binary (operator : BinaryOperator) (line : Nat) {left left' right right' : Value}
    (hl : SameValue d left left') (hr : SameValue d right right') : Alike d (SameValue d)
      (Effect.ofExcept line (operator.apply left right))
      (Effect.ofExcept (d.label.line line) (operator.apply left' right')) := by
  apply Alike.ofExcept (f := id) rfl
  · rw [hl.eq, hr.eq, BinaryOperator.apply_relabel]
    cases operator.apply left right <;> rfl
  · exact fun value hv => .of_codeFree (BinaryOperator.apply_codeFree hv)

theorem alike_combine (operator : AssignOperator) (line : Nat) {value value' : Value}
    {old old' : Effect Value} (hv : SameValue d value value') (ho : Alike d (SameValue d) old old') :
    Alike d (SameValue d) (combine operator line value old)
      (combine operator (d.label.line line) value' old') := by
  cases operator with
  | plain => exact .yield hv
  | compound operator =>
    apply ho.bind
    intro old old' hold
    exact alike_binary operator line hold hv

/-! ## Properties -/

theorem alike_newScope {bindings bindings' : Table Value} (around : Option ScopeId)
    (hb : bindings' = bindings.mapValues (Value.relabel d.label))
    (ho : ∀ name value, bindings.get? name = some value → value.Older d.next) :
    Alike d Eq (Effect.make fun s => s.newScope bindings around)
      (Effect.make fun s => s.newScope bindings' around) := by
  apply Alike.make
  intro s hs
  rw [hb]
  exact ⟨Store.newScope_relabel d.label s bindings around, hs.newScope around ho⟩

theorem alike_newScope_single (name : String) {value value' : Value} (around : Option ScopeId)
    (h : SameValue d value value') :
    Alike d Eq (Effect.make fun s => s.newScope [(name, value)] around)
      (Effect.make fun s => s.newScope [(name, value')] around) := by
  apply alike_newScope
  · rw [h.eq]
    rfl
  · intro key found hf
    unfold Table.get? at hf
    split at hf
    · cases hf
      exact h.older
    · cases hf

theorem alike_newIdentity : Alike d Eq (Effect.make Store.newIdentity) (Effect.make Store.newIdentity) :=
  .make fun _ hs => ⟨rfl, hs.newIdentity⟩

theorem alike_bindReceiver {method method' : Closure} {receiver receiver' : Value}
    (hm : SameClosure d method method') (hr : SameValue d receiver receiver') :
    Alike d (fun f f' => SameClosure d f f' ∧ f.arity = method.arity) (bindReceiver method receiver)
      (bindReceiver method' receiver') := by
  obtain ⟨rfl, ho⟩ := hm
  apply (alike_newScope_single "this" (some method.scope) hr).bind
  rintro scope _ rfl
  exact .yield ⟨⟨rfl, ho⟩, rfl⟩

theorem alike_newFunction {closure closure' : Closure} (h : SameClosure d closure closure') :
    Alike d (SameValue d) (newFunction closure) (newFunction closure') := by
  obtain ⟨rfl, ho⟩ := h
  apply alike_newIdentity.bind
  rintro id _ rfl
  exact .yield ⟨rfl, ho⟩

theorem alike_boundMethod {method method' : Closure} {receiver receiver' : Value}
    (hm : SameClosure d method method') (hr : SameValue d receiver receiver') :
    Alike d (SameValue d) (boundMethod method receiver) (boundMethod method' receiver') := by
  apply (alike_bindReceiver hm hr).bind
  rintro closure closure' ⟨hc, -⟩
  exact alike_newFunction hc

theorem SameClass.method? {c c' : ClassObject} (h : SameClass d c c') (name : String) :
    Option.Rel (SameClosure d) (c.method? name) (c'.method? name) := by
  apply optionRel_of_map (f := Closure.relabel d.label)
  · rw [h.eq, ClassObject.method?_relabel]
  · exact fun f hf => ⟨rfl, h.older name f hf⟩

theorem SameClass.instanceOf {c c' : ClassObject} (h : SameClass d c c') (id : InstanceId) :
    SameValue d (.instanceOf id c) (.instanceOf id c') := by
  obtain ⟨rfl, ho⟩ := h
  exact ⟨rfl, ho⟩

theorem alike_instanceProperty (id : InstanceId) {c c' : ClassObject} (name : Name)
    (h : SameClass d c c') : Alike d (SameValue d) (instanceProperty id c name)
      (instanceProperty id c' (name.relabel d.label)) := by
  have hfield : Alike d (Option.Rel (SameValue d)) (Effect.read fun m => m.store.field? id name.text)
      (Effect.read fun m => m.store.field? id name.text) := by
    apply Alike.read
    intro m m' ht
    apply optionRel_of_map (f := Value.relabel d.label)
    · rw [ht.store, Store.field?_relabel]
    · exact fun value hv => ⟨rfl, ht.older.fields id name.text value hv⟩
  apply hfield.bind
  intro found found' hf
  cases hf with
  | some hv => exact .yield hv
  | none =>
    have hm := h.method? name.text
    dsimp only [Name.relabel]
    generalize c.method? name.text = found, c'.method? name.text = found' at hm
    cases hm with
    | none => exact .fail rfl
    | some hm => exact alike_boundMethod hm (h.instanceOf id)

theorem alike_property {object object' : Value} (name : Name) (h : SameValue d object object') :
    Alike d (SameValue d) (property object name) (property object' (name.relabel d.label)) := by
  obtain ⟨rfl, ho⟩ := h
  cases object with
  | instanceOf id c => exact alike_instanceProperty id name ⟨rfl, ho⟩
  | list id =>
    unfold property
    dsimp only [Value.relabel, Name.relabel]
    cases ListMethod.ofName? name.text with
    | some method => exact .yield (.of_codeFree trivial)
    | none => exact .fail rfl
  | _ => exact .fail rfl

theorem alike_inheritedMethod {target : Reference} (method : Name) (h : target.id < d.next) :
    Alike d (SameValue d) (inheritedMethod target method)
      (inheritedMethod (target.relabel d.label) (method.relabel d.label)) := by
  apply (alike_depthOf h).bind
  rintro depth _ rfl
  have hdepth : Alike d Eq (Effect.ofOption target.name.line (.undefinedVariable "super") depth)
      (Effect.ofOption (d.label.line target.name.line) (.undefinedVariable "super") depth) :=
    .ofOption rfl (optionRel_self fun _ _ => rfl)
  apply hdepth.bind
  rintro depth _ rfl
  apply (alike_readName (some depth) ⟨"super", target.name.line⟩).bind
  rintro superclass _ ⟨rfl, hs⟩
  apply (alike_readName (some (depth - 1)) ⟨"this", target.name.line⟩).bind
  rintro receiver _ ⟨rfl, hr⟩
  cases superclass with
  | classObject superclass =>
    cases receiver with
    | instanceOf id c =>
      have hm := (show SameClass d superclass _ from ⟨rfl, hs⟩).method? method.text
      dsimp only [Value.relabel, Name.relabel]
      generalize superclass.method? method.text = found,
        (superclass.relabel d.label).method? method.text = found' at hm
      cases hm with
      | none => exact .fail rfl
      | some hm => exact alike_boundMethod hm ⟨rfl, hr⟩
    | _ => exact .fail rfl
  | _ => exact .fail rfl

/-- The results of the same operation, which may be a fault. -/
structure SameResult (d : Difference) (result result' : Except Fault Value) : Prop where
  eq : result' = result.map (Value.relabel d.label)
  older : ∀ value, result = .ok value → value.Older d.next

theorem alike_itemOf (list : ListId) {index index' : Value} (line : Nat) (h : SameValue d index index') :
    Alike d (SameValue d) (itemOf list index line) (itemOf list index' (d.label.line line)) := by
  have hread : Alike d (SameResult d) (Effect.read fun m => m.store.itemAt list index)
      (Effect.read fun m => m.store.itemAt list index') := by
    apply Alike.read
    intro m m' ht
    constructor
    · rw [ht.store, h.eq, Store.itemAt_relabel]
    · intro value hv
      rcases Store.itemAt_cases hv with rfl | hm
      · trivial
      · exact ht.older.items list value hm
  apply hread.bind
  intro result result' hr
  exact .ofExcept rfl hr.eq fun value hv => ⟨rfl, hr.older value hv⟩

theorem alike_setItemAt (list : ListId) {index index' value value' : Value} (line : Nat)
    (hi : SameValue d index index') (hv : SameValue d value value') :
    Alike d Eq (Effect.onStore line fun s => s.setItemAt list index value)
      (Effect.onStore (d.label.line line) fun s => s.setItemAt list index' value') := by
  apply Alike.onStore (f := id) rfl
  intro s hs
  rw [hi.eq, hv.eq, Store.setItemAt_relabel]
  refine ⟨?_, hs.setItemAt list index hv.older, fun _ _ => rfl⟩
  cases (s.setItemAt list index value).1 <;> rfl

theorem alike_callListMethod (list : ListId) (method : ListMethod) {arguments arguments' : List Value}
    (line : Nat) (h : SameValues d arguments arguments') :
    Alike d (SameValue d) (Effect.onStore line fun s => s.callListMethod list method arguments)
      (Effect.onStore (d.label.line line) fun s => s.callListMethod list method arguments') := by
  apply Alike.onStore (f := Value.relabel d.label) rfl
  intro s hs
  rw [h.eq, Store.callListMethod_relabel]
  refine ⟨rfl, hs.callListMethod list method h.older, fun value hv => ⟨rfl, ?_⟩⟩
  rcases Store.callListMethod_value hv with hv | hv
  · exact hv.older d.next
  · exact hs.items list value hv

theorem alike_newList {items items' : List Value} (h : SameValues d items items') :
    Alike d Eq (Effect.make fun s => s.newList items.toArray)
      (Effect.make fun s => s.newList items'.toArray) := by
  apply Alike.make
  intro s hs
  rw [h.eq, ← List.map_toArray, Store.newList_relabel]
  exact ⟨rfl, hs.newList fun value hv => h.older value (List.mem_toArray.1 hv)⟩

theorem alike_setField (object : InstanceId) (name : String) {value value' : Value}
    (h : SameValue d value value') :
    Alike d Eq (Effect.modifyStore fun s => s.setField object name value)
      (Effect.modifyStore fun s => s.setField object name value') := by
  apply Alike.modifyStore
  intro s hs
  rw [h.eq]
  exact ⟨Store.setField_relabel d.label s object name value, hs.setField object name h.older⟩

/-! ## Assignments -/

theorem alike_assignName {node node' : Expr} {target : Reference} (operator : AssignOperator)
    (h : target.id < d.next) {value value' : Value} (hv : SameValue d value value') :
    Alike d (SameValue d) (Operations.plain.assignName node target operator value)
      (Operations.plain.assignName node' (target.relabel d.label) operator value') := by
  apply (alike_depthOf h).bind
  rintro depth _ rfl
  apply (alike_combine operator target.name.line hv (alike_readName depth target.name)).bind
  intro result result' hr
  apply (alike_writeName depth target.name hr).bind
  rintro _ _ rfl
  exact .yield hr

theorem alike_assignField (id : InstanceId) {c c' : ClassObject} (name : Name) (operator : AssignOperator)
    {value value' : Value} (hc : SameClass d c c') (hv : SameValue d value value') : Alike d (SameValue d)
      (Operations.plain.assignField id c name operator value)
      (Operations.plain.assignField id c' (name.relabel d.label) operator value') := by
  apply (alike_combine operator name.line hv (alike_instanceProperty id name hc)).bind
  intro result result' hr
  apply (alike_setField id name.text hr).bind
  rintro _ _ rfl
  exact .yield hr

theorem alike_assignItem (list : ListId) {index index' value value' : Value} (operator : AssignOperator)
    (line : Nat) (hi : SameValue d index index') (hv : SameValue d value value') : Alike d (SameValue d)
      (Operations.plain.assignItem list index operator line value)
      (Operations.plain.assignItem list index' operator (d.label.line line) value') := by
  apply (alike_combine operator line hv (alike_itemOf list line hi)).bind
  intro result result' hr
  apply (alike_setItemAt list line hi hr).bind
  rintro _ _ rfl
  exact .yield hr

/-! ## Classes -/

theorem alike_superclassOf (line : Nat) {superclass : Option Reference}
    (h : ∀ id ∈ superclassIds superclass, id < d.next) :
    Alike d (Option.Rel (SameClass d)) (superclassOf line superclass)
      (superclassOf (d.label.line line) (relabelSuperclass d.label superclass)) := by
  cases superclass with
  | none => exact .yield .none
  | some target =>
    apply (alike_readReference (h target.id (by simp [superclassIds]))).bind
    rintro value _ ⟨rfl, ho⟩
    cases value with
    | classObject c => exact .yield (.some ⟨rfl, ho⟩)
    | _ => exact .fail rfl

theorem relabelMethods_eq_map (l : Relabelling) (methods : List FunctionDecl) :
    relabelMethods l methods = methods.map (FunctionDecl.relabel l) := by
  induction methods with
  | nil => rfl
  | cons f rest ih => rw [relabelMethods, ih, List.map_cons]

theorem methodTable_relabel (l : Relabelling) (scope : ScopeId) (methods : List FunctionDecl) :
    methodTable scope (relabelMethods l methods) =
      (methodTable scope methods).mapValues (Closure.relabel l) := by
  unfold methodTable
  rw [relabelMethods_eq_map, List.foldl_map, Table.mapValues_foldl_put]
  simp only [FunctionDecl.relabel_name]
  rfl

theorem mem_methodIds {methods : List FunctionDecl} {f : FunctionDecl} (hf : f ∈ methods) {id : NodeId}
    (hid : id ∈ f.ids) : id ∈ methodIds methods := by
  induction methods with
  | nil => cases hf
  | cons first rest ih =>
    rw [methodIds, List.mem_append]
    rcases List.mem_cons.1 hf with rfl | hf
    · exact .inl hid
    · exact .inr (ih hf)

theorem methodTable_older {scope : ScopeId} {methods : List FunctionDecl} {name : String} {f : Closure}
    (h : (methodTable scope methods).get? name = some f) (ho : ∀ id ∈ methodIds methods, id < d.next) :
    f.Older d.next := by
  intro id hid
  exact ho id (mem_methodIds (methodTable_get h).declared hid)

theorem alike_methodScope {superclass superclass' : Option ClassObject}
    (h : Option.Rel (SameClass d) superclass superclass') :
    Alike d Eq (methodScope superclass) (methodScope superclass') := by
  cases h with
  | none => exact .currentScope
  | @some c c' h =>
    obtain ⟨rfl, ho⟩ := h
    apply Alike.currentScope.bind
    rintro current _ rfl
    exact alike_newScope_single "super" (some current) ⟨rfl, ho⟩

theorem sameClass_of_methods {superclass superclass' : Option ClassObject} {methods : List FunctionDecl}
    (id : Identity) (name : String) (scope : ScopeId)
    (h : Option.Rel (SameClass d) superclass superclass') (ho : ∀ id ∈ methodIds methods, id < d.next) :
    SameClass d ⟨id, name, superclass, methodTable scope methods⟩
      ⟨id, name, superclass', methodTable scope (relabelMethods d.label methods)⟩ := by
  constructor
  · rw [methodTable_relabel]
    cases h with
    | none => rfl
    | some h => rw [h.eq]; rfl
  · intro key f hf
    unfold ClassObject.method? at hf
    split at hf
    · rename_i hm
      cases hf
      exact methodTable_older hm ho
    · cases h with
      | none => cases hf
      | some h => exact h.older key f hf

theorem alike_methodsIn (scope : ScopeId) (methods : List FunctionDecl) :
    Alike d (fun table table' => table = methodTable scope methods ∧
        table' = methodTable scope (relabelMethods d.label methods))
      (methodsIn scope methods) (methodsIn scope (relabelMethods d.label methods)) := by
  rw [methodsIn_eq, methodsIn_eq]
  exact .yield ⟨rfl, rfl⟩

theorem alike_defineClass (name : Name) {superclass : Option Reference} {methods : List FunctionDecl}
    (hs : ∀ id ∈ superclassIds superclass, id < d.next) (hm : ∀ id ∈ methodIds methods, id < d.next) :
    Alike d Eq (defineClass name superclass methods)
      (defineClass (name.relabel d.label) (relabelSuperclass d.label superclass)
        (relabelMethods d.label methods)) := by
  apply (alike_superclassOf name.line hs).bind
  intro found found' hfound
  apply (alike_defineHere name.text (sameValue_nil (d := d))).bind
  rintro _ _ rfl
  apply (alike_methodScope hfound).bind
  rintro scope _ rfl
  apply (alike_methodsIn scope methods).bind
  rintro _ _ ⟨rfl, rfl⟩
  apply alike_newIdentity.bind
  rintro id _ rfl
  have hread : Alike d Eq (Effect.read fun m => m.store.binder? m.current name.text)
      (Effect.read fun m => m.store.binder? m.current name.text) := by
    apply Alike.read
    intro m m' ht
    rw [ht.store, ht.current, Store.binder?_relabel]
  apply hread.bind
  rintro holder _ rfl
  have hholder : Alike d Eq (Effect.ofOption name.line (.undefinedVariable name.text) holder)
      (Effect.ofOption (d.label.line name.line) (.undefinedVariable name.text) holder) :=
    .ofOption rfl (optionRel_self fun _ _ => rfl)
  apply hholder.bind
  rintro holder _ rfl
  obtain ⟨heq, ho⟩ := sameClass_of_methods id name.text scope hfound hm
  exact alike_define holder name.text ⟨congrArg Value.classObject heq, ho⟩

theorem alike_defineFunction {f : FunctionDecl} (h : ∀ id ∈ f.ids, id < d.next) :
    Alike d Eq (Operations.plain.defineFunction f) (Operations.plain.defineFunction (f.relabel d.label)) := by
  apply Alike.currentScope.bind
  rintro current _ rfl
  have hclosure : SameClosure d ⟨f, current, false⟩ ⟨f.relabel d.label, current, false⟩ := ⟨rfl, h⟩
  apply (alike_newFunction hclosure).bind
  intro value value' hv
  rw [FunctionDecl.relabel_name]
  exact alike_defineHere f.name.text hv

/-! ## The functions of the language -/

theorem alike_argumentCount {α : Type} {R : α → α → Prop} {arguments arguments' : List Value}
    (expected line : Nat) (h : SameValues d arguments arguments') :
    Alike d R (Effect.fail line (.argumentCount expected arguments.length))
      (Effect.fail (d.label.line line) (.argumentCount expected arguments'.length)) := by
  rw [h.eq, List.length_map]
  exact .fail rfl

theorem Console.write_behind (printed text : String) (c : Console) :
    (c.behind printed).write text = ((c.write text).1, (c.write text).2.behind printed) := by
  have hfits : (c.behind printed).fits text = c.fits text := rfl
  unfold Console.write
  rw [hfits]
  split
  · simp only [Console.behind, String.append_assoc]
  · rfl

theorem Console.readLine_behind (printed : String) (c : Console) :
    (c.behind printed).readLine = (c.readLine.1, c.readLine.2.behind printed) := by
  have hinput : (c.behind printed).input = c.input := rfl
  unfold Console.readLine
  rw [hinput]
  cases c.input with
  | nil => rfl
  | cons b rest =>
    dsimp only
    split <;> rfl

theorem alike_textOf (fuel : Nat) {value value' : Value} (h : SameValue d value value') :
    Alike d Eq (Effect.textOf fuel value) (Effect.textOf fuel value') := by
  intro m m' ht
  unfold Effect.textOf
  rw [ht.store, h.eq, Store.text?_relabel]
  cases m.store.text? fuel value with
  | none => exact .outOfFuel ht
  | some text => exact .done rfl ht

theorem alike_write (line : Nat) (text : String) :
    Alike d Eq (Effect.write line text) (Effect.write (d.label.line line) text) :=
  .onConsole rfl (Console.write_behind d.printed text)

theorem alike_readLine (line : Nat) :
    Alike d (SameValue d) (Effect.readLine line) (Effect.readLine (d.label.line line)) := by
  apply (Alike.onConsole rfl (Console.readLine_behind d.printed)).bind
  rintro text _ rfl
  cases text with
  | none => exact .yield sameValue_nil
  | some text => exact .yield (.of_codeFree trivial)

theorem alike_readClock : Alike d (SameValue d) Effect.readClock Effect.readClock := by
  intro m m' ht
  unfold Effect.readClock
  rw [ht.clock]
  exact .done (.of_codeFree trivial) { ht with clock := rfl }

theorem alike_builtin (builtin : Builtin) (fuel : Nat) {arguments arguments' : List Value} (line : Nat)
    (h : SameValues d arguments arguments') : Alike d (SameValue d)
      (builtin.call fuel arguments line) (builtin.call fuel arguments' (d.label.line line)) := by
  obtain ⟨rfl, ho⟩ := h
  rcases arguments with _ | ⟨value, _ | ⟨second, rest⟩⟩
  · cases builtin with
    | clock => exact alike_readClock
    | list =>
      apply (alike_newList (sameValues_nil (d := d))).bind
      rintro id _ rfl
      exact .yield (.of_codeFree trivial)
    | _ => exact .fail rfl
  · have hv : SameValue d value (value.relabel d.label) := ⟨rfl, ho value List.mem_cons_self⟩
    cases builtin with
    | print =>
      apply (alike_textOf fuel hv).bind
      rintro text _ rfl
      apply (alike_write line (text ++ "\n")).bind
      rintro _ _ rfl
      exact .yield sameValue_nil
    | readline =>
      apply (alike_textOf fuel hv).bind
      rintro text _ rfl
      apply (alike_write line text).bind
      rintro _ _ rfl
      exact alike_readLine line
    | int =>
      refine .ofExcept rfl (f := id) ?_ fun found hf => .of_codeFree (Value.toInteger_codeFree hf)
      rw [Value.relabel_toInteger]
      cases value.toInteger <;> rfl
    | float =>
      refine .ofExcept rfl (f := id) ?_ fun found hf => .of_codeFree (Value.toFloating_codeFree hf)
      rw [Value.relabel_toFloating]
      cases value.toFloating <;> rfl
    | str =>
      apply (alike_textOf fuel hv).bind
      rintro text _ rfl
      exact .yield (.of_codeFree trivial)
    | type =>
      have htype : (value.relabel d.label).typeText = value.typeText := Value.relabel_typeText ..
      exact .yield (htype ▸ .of_codeFree trivial)
    | _ => exact .fail rfl
  · have hfail := @alike_argumentCount d Value (SameValue d) _ _ builtin.arity line ⟨rfl, ho⟩
    cases builtin <;> exact hfail

/-! ## Bodies -/

theorem parameterTable_relabel (l : Relabelling) (params : List Name) (arguments : List Value) :
    parameterTable (relabelNames l params) (arguments.map (Value.relabel l)) =
      (parameterTable params arguments).mapValues (Value.relabel l) := by
  unfold parameterTable relabelNames
  rw [List.zip_map, List.foldl_map, Table.mapValues_foldl_put]
  rfl

theorem alike_inCall {f f' : Closure} {arguments arguments' : List Value} {run run' : Effect Flow}
    (hf : SameClosure d f f') (ha : SameValues d arguments arguments')
    (hrun : Alike d (Flow.Alike (SameValue d)) run run') : Alike d (SameValue d)
      (Operations.plain.inCall f arguments run) (Operations.plain.inCall f' arguments' run') := by
  obtain ⟨rfl, ho⟩ := hf
  obtain ⟨⟨name, params, body⟩, outer, isInitializer⟩ := f
  have hscope : Alike d Eq
      (Effect.make fun s => s.newScope (parameterTable params arguments) (some outer))
      (Effect.make fun s => s.newScope (parameterTable (relabelNames d.label params) arguments')
        (some outer)) := by
    apply alike_newScope
    · rw [ha.eq, parameterTable_relabel]
    · exact fun _ value hv => ha.older value (parameterTable_values hv)
  apply hscope.bind
  rintro scope _ rfl
  apply (hrun.within scope).bind
  intro flow flow' hflow
  cases isInitializer with
  | true =>
    have hread : Alike d (Option.Rel (SameValue d)) (Effect.read fun m => m.store.lookupAt? outer 0 "this")
        (Effect.read fun m => m.store.lookupAt? outer 0 "this") := by
      apply Alike.read
      intro m m' ht
      apply optionRel_of_map (f := Value.relabel d.label)
      · rw [ht.store, Store.lookupAt?_relabel]
      · intro value hv
        obtain ⟨holder, -, hb⟩ := Option.bind_eq_some_iff.1 hv
        exact ⟨rfl, ht.older.bindings holder "this" value hb⟩
    apply hread.bind
    intro found found' hfound
    exact .ofOption rfl hfound
  | false =>
    cases hflow with
    | normal => exact .yield sameValue_nil
    | returned hv => exact .yield hv

theorem alike_inBlock {body body' : List Stmt} {run run' : Effect Flow}
    (hrun : Alike d (Flow.Alike (SameValue d)) run run') : Alike d (Flow.Alike (SameValue d))
      (Operations.plain.inBlock body run) (Operations.plain.inBlock body' run') := by
  apply Alike.currentScope.bind
  rintro current _ rfl
  apply (alike_newScope (some current) rfl fun name value hv => by cases hv).bind
  rintro scope _ rfl
  exact hrun.within scope

/-! ## Whole runs -/

/-- The second expression is the first one with other labels. -/
structure SameExpr (d : Difference) (e e' : Expr) : Prop where
  eq : e' = e.relabel d.label
  older : ∀ id ∈ e.ids, id < d.next

/-- The second statement is the first one with other labels. -/
structure SameStmt (d : Difference) (s s' : Stmt) : Prop where
  eq : s' = s.relabel d.label
  older : ∀ id ∈ s.ids, id < d.next

theorem sameExprs {es : List Expr} (h : ∀ id ∈ itemIds es, id < d.next) :
    List.Forall₂ (SameExpr d) es (relabelItems d.label es) := by
  induction es with
  | nil => exact .nil
  | cons e rest ih =>
    rw [itemIds, List.forall_mem_append] at h
    exact .cons ⟨rfl, h.1⟩ (ih h.2)

theorem sameBody {body : List Stmt} (h : ∀ id ∈ bodyIds body, id < d.next) :
    List.Forall₂ (SameStmt d) body (relabelBody d.label body) := by
  induction body with
  | nil => exact .nil
  | cons s rest ih =>
    rw [bodyIds, List.forall_mem_append] at h
    exact .cons ⟨rfl, h.1⟩ (ih h.2)

theorem sameValues {values values' : List Value} (h : List.Forall₂ (SameValue d) values values') :
    SameValues d values values' := by
  induction h with
  | nil => exact sameValues_nil
  | cons hv _ ih => exact .cons hv ih

theorem SameExpr.alike {e e' : Expr} (h : SameExpr d e e') :
    e.Alike (fun line line' => line' = d.label.line line) (fun name name' => name' = name.relabel d.label)
      (SameExpr d) e' := by
  obtain ⟨rfl, h⟩ := h
  cases e with
  | literal value => exact .literal value
  | grouping inner => exact .grouping ⟨rfl, h⟩
  | unary operator line right => exact .unary operator rfl ⟨rfl, h⟩
  | binary left operator line right =>
    rw [Expr.ids, List.forall_mem_append] at h
    exact .binary operator ⟨rfl, h.1⟩ rfl ⟨rfl, h.2⟩
  | logical left operator right =>
    rw [Expr.ids, List.forall_mem_append] at h
    exact .logical operator ⟨rfl, h.1⟩ ⟨rfl, h.2⟩
  | reference target => exact .reference target _
  | assign target operator value =>
    rw [Expr.ids, List.forall_mem_cons] at h
    exact .assign target _ operator ⟨rfl, h.2⟩
  | call callee style line arguments =>
    rw [Expr.ids, List.forall_mem_append] at h
    exact .call style style ⟨rfl, h.1⟩ rfl (sameExprs h.2)
  | list line elements => exact .list line _ (sameExprs h)
  | get object name => exact .get ⟨rfl, h⟩ rfl
  | set object name operator value =>
    rw [Expr.ids, List.forall_mem_append] at h
    exact .set operator ⟨rfl, h.1⟩ rfl ⟨rfl, h.2⟩
  | setElement object arguments operator line value =>
    rw [Expr.ids, List.forall_mem_append, List.forall_mem_append] at h
    exact .setElement operator ⟨rfl, h.1⟩ (sameExprs h.2.1) rfl ⟨rfl, h.2.2⟩
  | receiver target => exact .receiver target _
  | inherited target method => exact .inherited target _ method _

theorem sameOptional {e : Option Expr} (h : ∀ id ∈ optionalIds e, id < d.next) :
    Option.Rel (SameExpr d) e (relabelOptional d.label e) := by
  cases e with
  | none => exact .none
  | some e => exact .some ⟨rfl, h⟩

theorem SameStmt.alike {s s' : Stmt} (h : SameStmt d s s') : s.Alike (SameExpr d) (SameStmt d) s' := by
  obtain ⟨rfl, h⟩ := h
  cases s with
  | expression value => exact .expression ⟨rfl, h⟩
  | declare name initializer => exact .declare name _ (sameOptional h)
  | block body => exact .block body _
  | branch condition thenBranch elseBranch =>
    rw [Stmt.ids, List.forall_mem_append, List.forall_mem_append] at h
    refine .branch ⟨rfl, h.1⟩ ⟨rfl, h.2.1⟩ ?_
    cases elseBranch with
    | none => exact .none
    | some elseBranch => exact .some ⟨rfl, h.2.2⟩
  | loop condition body =>
    rw [Stmt.ids, List.forall_mem_append] at h
    exact .loop ⟨rfl, h.1⟩ ⟨rfl, h.2⟩
  | function f => exact .function f _
  | giveBack keyword value => exact .giveBack keyword _ (sameOptional h)
  | declareClass name superclass methods => exact .declareClass name _ superclass _ methods _

theorem SameValue.alike {value value' : Value} (h : SameValue d value value') :
    value.Alike (SameClosure d) (SameClass d) value' := by
  obtain ⟨rfl, h⟩ := h
  cases value with
  | function id f => exact .function id id ⟨rfl, h⟩
  | classObject c => exact .classObject ⟨rfl, h⟩
  | _ => constructor

/-- What has other labels is alike. -/
def Difference.likeness (d : Difference) : Likeness where
  World := Unit
  Later _ _ := True
  value _ := SameValue d
  closure _ := SameClosure d
  class_ _ := SameClass d
  expr _ := SameExpr d
  stmt _ := SameStmt d
  line line line' := line' = d.label.line line
  name name name' := name' = name.relabel d.label
  value_later _ h := h
  closure_later _ h := h
  class_later _ h := h
  expr_later _ h := h
  stmt_later _ h := h
  value_alike := SameValue.alike
  expr_alike := SameExpr.alike
  stmt_alike := SameStmt.alike
  closure_arity h := h.eq ▸ Closure.relabel_arity ..
  class_arity h := h.eq ▸ ClassObject.relabel_arity ..
  name_line h := h ▸ rfl
  literal _ value := .of_codeFree value.value_codeFree

/-- The operations are alike on pieces with other labels. -/
def Difference.simulation (d : Difference) : Simulation d.likeness .plain .plain where
  Related _ R := Alike d (R ())
  fuels := Eq
  pure h := .yield h
  bind h hn := h.bind fun a a' => hn () trivial a a'
  holding _ _ h := h
  entering _ _ _ _ h := h
  fail _ hl := .fail hl
  unary operator hl hv := hl ▸ alike_unary operator _ hv
  binary operator hl hv hu := hl ▸ alike_binary operator _ hv hu
  reference := by
    rintro _ target _ ⟨h, ho⟩
    cases h
    exact alike_readReference (ho target.id (List.mem_singleton_self _))
  receiver := by
    rintro _ target _ ⟨h, ho⟩
    cases h
    exact alike_readReference (ho target.id (List.mem_singleton_self _))
  inherited := by
    rintro _ target _ method _ ⟨h, ho⟩
    cases h
    exact alike_inheritedMethod method (ho target.id (List.mem_singleton_self _))
  assignName := by
    rintro _ target _ operator _ _ _ _ ⟨h, ho⟩ hv
    cases h
    exact alike_assignName operator (ho target.id List.mem_cons_self) hv
  property := by
    rintro _ _ _ name _ hv rfl
    exact alike_property name hv
  assignField := by
    rintro _ id _ c _ name _ _ _ operator ⟨h, ho⟩ rfl hv
    cases h
    exact alike_assignField id name operator ⟨rfl, ho⟩ hv
  newList h := by
    apply (alike_newList (sameValues h)).bind
    rintro id _ rfl
    exact .yield (.of_codeFree trivial)
  itemOf := by
    rintro _ list _ _ _ line _ ⟨h, -⟩ hv rfl
    cases h
    exact alike_itemOf list line hv
  assignItem := by
    rintro _ list _ _ _ _ _ line _ operator ⟨h, -⟩ hi rfl hv
    cases h
    exact alike_assignItem list operator line hi hv
  builtin := by
    rintro _ fuel _ line _ _ _ builtin rfl hvs rfl
    exact alike_builtin builtin fuel line (sameValues hvs)
  listMethod := by
    rintro _ list _ method _ _ line _ ⟨h, -⟩ hvs rfl
    cases h
    exact alike_callListMethod list method line (sameValues hvs)
  newInstance hc := by
    have hmake : Alike d Eq (Effect.make Store.newInstance) (Effect.make Store.newInstance) :=
      .make fun s hs => ⟨Store.newInstance_relabel d.label s, hs.newInstance⟩
    apply hmake.imp
    rintro id _ rfl
    exact SameClass.instanceOf hc id
  initializer hc hv :=
    optionRel_imp (fun _ _ hm => alike_bindReceiver hm hv) (SameClass.method? hc initializerName)
  inCall := by
    rintro _ ⟨⟨_, _, body⟩, _, _⟩ _ _ _ _ _ ⟨rfl, ho⟩ hvs hrun
    exact alike_inCall ⟨rfl, ho⟩ (sameValues hvs) (hrun () (sameBody ho))
  inBlock := by
    rintro _ body _ _ _ ⟨h, ho⟩ hrun
    cases h
    exact alike_inBlock (hrun () (sameBody ho))
  declare := by
    rintro _ name _ _ _ _ _ ⟨h, -⟩ hv
    cases h
    exact (alike_defineHere name.text hv).imp fun _ _ _ => trivial
  defineFunction := by
    rintro _ f _ ⟨h, ho⟩
    cases h
    exact (alike_defineFunction ho).imp fun _ _ _ => trivial
  defineClass := by
    rintro _ name _ superclass _ methods _ ⟨h, ho⟩
    cases h
    rw [Stmt.ids, List.forall_mem_append] at ho
    exact (alike_defineClass name ho.1 ho.2).imp fun _ _ _ => trivial

/-- A program with other labels is run alike. -/
theorem alike_runProgram (fuel : Nat) (program : List Stmt) (h : ∀ id ∈ bodyIds program, id < d.next) :
    Alike d Eq (runProgram fuel program) (runProgram fuel (relabelBody d.label program)) := by
  have hagree := d.simulation.agree_evaluator_same rfl .exhausted fuel
  rw [Evaluator.evaluator_plain] at hagree
  have hrun := hagree.runProgram (w := ()) (sameBody h)
  rw [Evaluator.runProgram_withFuel, Evaluator.runProgram_withFuel] at hrun
  exact Alike.imp hrun fun _ _ _ => rfl

end LoxLang
