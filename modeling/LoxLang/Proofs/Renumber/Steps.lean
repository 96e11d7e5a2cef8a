import LoxLang.Proofs.Renumber.Effect
import LoxLang.Proofs.Simulation

/-!
# The steps of the evaluator with other numbers

Names, properties, classes and the functions of the language: each of them shadows itself, on values that
have other numbers.
-/

namespace LoxLang

structure Closure.Beside (g : Gap) (x : Extent) (c c' : Closure) : Prop where
  within : c.Within x
  eq : c' = c.renumber g

structure ClassObject.Beside (g : Gap) (x : Extent) (c c' : ClassObject) : Prop where
  within : c.Within x
  eq : c' = c.renumber g

/-- The values in the second list are those in the first one, with other numbers. -/
structure ValuesBeside (g : Gap) (x : Extent) (vs vs' : List Value) : Prop where
  within : ∀ v ∈ vs, v.Within x
  eq : vs' = vs.map (Value.renumber g)

section
variable {g : Gap} {x y : Extent}

theorem Closure.Beside.mono {f f' : Closure} (h : f.Beside g x f') (hxy : x ≤ y) : f.Beside g y f' :=
  ⟨h.within.mono hxy, h.eq⟩

theorem ClassObject.Beside.mono {c c' : ClassObject} (h : c.Beside g x c') (hxy : x ≤ y) :
    c.Beside g y c' := ⟨h.within.mono hxy, h.eq⟩

theorem ValuesBeside.cons {v v' : Value} {vs vs' : List Value} (hv : v.Beside g x v')
    (h : ValuesBeside g x vs vs') : ValuesBeside g x (v :: vs) (v' :: vs') :=
  ⟨List.forall_mem_cons.2 ⟨hv.within, h.within⟩, congrArg₂ List.cons hv.eq h.eq⟩

theorem valuesBeside_nil : ValuesBeside g x [] [] := ⟨List.forall_mem_nil _, rfl⟩

theorem valuesBeside {vs vs' : List Value} (h : List.Forall₂ (Value.Beside g x) vs vs') :
    ValuesBeside g x vs vs' := by
  induction h with
  | nil => exact valuesBeside_nil
  | cons hv _ ih => exact .cons hv ih

theorem ClassObject.Beside.method? {c c' : ClassObject} (h : c.Beside g x c') (name : String) :
    Option.Rel (Closure.Beside g x) (c.method? name) (c'.method? name) := by
  rw [h.eq, method?_renumber]
  cases hm : c.method? name with
  | none => exact .none
  | some method => exact .some ⟨h.within.method? hm, rfl⟩

end

variable {g : Gap} {m m' : Machine}

/-! ## Names -/

section Names
variable (h : m.Beside g m')
include h

theorem Machine.Beside.holder? (depth : Option Nat) (name : String) :
    m'.holder? depth name = (m.holder? depth name).map g.scope := by
  unfold Machine.holder?
  cases depth with
  | none =>
    dsimp only
    rw [h.globals]
    exact h.store.binder? m.globals name
  | some depth =>
    dsimp only
    rw [h.current]
    exact h.store.binderAt? m.current depth name

theorem shadows_depthOf (id : NodeId) :
    Shadows g m (fun _ depth depth' => depth' = depth) (depthOf id m) (depthOf id m') :=
  shadows_read h (congrArg (fun depths : Depths => depths[id]?) h.depths)

theorem shadows_readName (depth : Option Nat) (name : Name) :
    Shadows g m (Value.Beside g) (readName depth name m) (readName depth name m') := by
  have hfound : Option.Rel (Value.Beside g m.extent)
      ((m.holder? depth name.text).bind fun holder => m.store.binding? holder name.text)
      ((m'.holder? depth name.text).bind fun holder => m'.store.binding? holder name.text) := by
    rw [h.holder?]
    cases m.holder? depth name.text with
    | none => exact .none
    | some holder =>
      change Option.Rel _ (m.store.binding? holder name.text) (m'.store.binding? (g.scope holder) name.text)
      rw [h.store.binding?]
      exact optionRel_of_map rfl fun value hb => ⟨h.store.sound.binding hb, rfl⟩
  refine (shadows_read (R := fun x => Option.Rel (Value.Beside g x)) h hfound).bind ?_
  intro found found' n n' hn _ hr
  exact shadows_ofOption hn _ _ hr

theorem shadows_define {holder : ScopeId} (name : String) {value value' : Value}
    (hv : value.Beside g m.extent value') :
    Shadows g m (fun _ _ _ => True) (Effect.modifyStore (fun s => s.define holder name value) m)
      (Effect.modifyStore (fun s => s.define (g.scope holder) name value') m') := by
  rw [hv.eq]
  exact shadows_modifyStore h (h.store.define holder name hv.within)
    ((Store.define_extent m.store holder name value).symm ▸ Extent.le_refl _)

theorem shadows_writeName (depth : Option Nat) (name : Name) {value value' : Value}
    (hv : value.Beside g m.extent value') :
    Shadows g m (fun _ _ _ => True) (writeName depth name value m) (writeName depth name value' m') := by
  have hfound : Option.Rel (fun i i' => i' = g.scope i) (m.holder? depth name.text)
      (m'.holder? depth name.text) := by
    rw [h.holder?]
    exact optionRel_of_map rfl fun _ _ => rfl
  have hholder : Shadows g m (fun _ i i' => i' = g.scope i) (holderOf depth name m)
      (holderOf depth name m') := by
    refine (shadows_read (R := fun _ => Option.Rel fun i i' => i' = g.scope i) h hfound).bind ?_
    intro found found' n n' hn _ hr
    exact shadows_ofOption hn _ _ hr
  refine hholder.bind ?_
  rintro holder _ n n' hn hle rfl
  exact shadows_define hn name.text (hv.mono hle)

theorem shadows_readReference (target : Reference) :
    Shadows g m (Value.Beside g) (readReference target m) (readReference target m') := by
  refine (shadows_depthOf h target.id).bind ?_
  rintro _ depth n n' hn _ rfl
  exact shadows_readName hn depth target.name

theorem shadows_defineHere (name : String) {value value' : Value} (hv : value.Beside g m.extent value') :
    Shadows g m (fun _ _ _ => True) (defineHere name value m) (defineHere name value' m') := by
  refine (shadows_currentScope h).bind ?_
  rintro scope _ n n' hn hle ⟨-, rfl⟩
  exact shadows_define hn name (hv.mono hle)

theorem shadows_unary (operator : UnaryOperator) (line : Nat) {right right' : Value}
    (hr : right.Beside g m.extent right') :
    Shadows g m (Value.Beside g) (Effect.ofExcept line (operator.apply right) m)
      (Effect.ofExcept line (operator.apply right') m') := by
  refine shadows_ofExcept h line ?_
  rw [hr.eq, UnaryOperator.apply_renumber]
  cases ha : operator.apply right with
  | error fault => exact .error fault
  | ok value => exact .ok ((UnaryOperator.apply_simple ha).beside g _)

theorem shadows_binary (operator : BinaryOperator) (line : Nat) {left left' right right' : Value}
    (hl : left.Beside g m.extent left') (hr : right.Beside g m.extent right') :
    Shadows g m (Value.Beside g) (Effect.ofExcept line (operator.apply left right) m)
      (Effect.ofExcept line (operator.apply left' right') m') := by
  refine shadows_ofExcept h line ?_
  rw [hl.eq, hr.eq, BinaryOperator.apply_renumber]
  cases ha : operator.apply left right with
  | error fault => exact .error fault
  | ok value => exact .ok ((BinaryOperator.apply_simple ha).beside g _)

theorem shadows_combine (operator : AssignOperator) (line : Nat) {value value' : Value}
    (hv : value.Beside g m.extent value') {old old' : Effect Value}
    (ho : Shadows g m (Value.Beside g) (old m) (old' m')) :
    Shadows g m (Value.Beside g) (combine operator line value old m)
      (combine operator line value' old' m') := by
  cases operator with
  | plain => exact shadows_yield h hv
  | compound operator =>
    refine ho.bind ?_
    intro old old' n n' hn hle hold
    exact shadows_binary hn operator line hold (hv.mono hle)

end Names

/-! ## Properties -/

section Properties
variable (h : m.Beside g m')
include h

theorem shadows_newScope (bindings bindings' : Table Value) (around around' : Option ScopeId)
    (hb : bindings.All (Value.Within m.extent)) (hb' : bindings' = bindings.mapValues (Value.renumber g))
    (ha : ∀ outer, around = some outer → outer < m.store.scopes.size)
    (ha' : around' = around.map g.scope) :
    Shadows g m (fun x i i' => i < x.scopes ∧ i' = g.scope i)
      (Effect.make (fun s => s.newScope bindings around) m)
      (Effect.make (fun s => s.newScope bindings' around') m') := by
  rw [hb', ha']
  refine shadows_make h (h.store.newScope hb ha) (Store.le_newScope_extent _ _ _) ⟨?_, h.store.newScope_id⟩
  simp [Store.newScope, Store.extent]

theorem shadows_newIdentity : Shadows g m (fun x i i' => i < x.identities ∧ i' = g.identity i)
    (Effect.make Store.newIdentity m) (Effect.make Store.newIdentity m') :=
  shadows_make h h.store.newIdentity (Store.le_newIdentity_extent _)
    ⟨Nat.lt_succ_self _, h.store.newIdentity_id⟩

theorem shadows_bindReceiver {method method' : Closure} {receiver receiver' : Value}
    (hm : method.Beside g m.extent method') (hr : receiver.Beside g m.extent receiver') :
    Shadows g m (fun x f f' => f.Beside g x f' ∧ f.arity = method.arity) (bindReceiver method receiver m)
      (bindReceiver method' receiver' m') := by
  have hwithin : Table.All (Value.Within m.extent) [("this", receiver)] :=
    List.forall_mem_singleton.2 hr.within
  have houter (outer : ScopeId) (ho : some method.scope = some outer) :
      outer < m.store.scopes.size := by
    cases ho
    exact hm.within
  have hscope := shadows_newScope h [("this", receiver)] [("this", receiver')] (some method.scope)
    (some method'.scope) hwithin (by rw [hr.eq]; rfl) houter (by rw [hm.eq]; rfl)
  refine hscope.bind ?_
  rintro scope _ n n' hn hle ⟨hlt, rfl⟩
  refine shadows_yield hn ⟨⟨hlt, ?_⟩, rfl⟩
  rw [hm.eq]
  rfl

theorem shadows_newFunction {closure closure' : Closure} (hc : closure.Beside g m.extent closure') :
    Shadows g m (Value.Beside g) (newFunction closure m) (newFunction closure' m') := by
  refine (shadows_newIdentity h).bind ?_
  rintro id _ n n' hn hle ⟨hlt, rfl⟩
  refine shadows_yield hn ⟨⟨hlt, hc.within.mono hle⟩, ?_⟩
  rw [hc.eq]
  rfl

theorem shadows_boundMethod {method method' : Closure} {receiver receiver' : Value}
    (hm : method.Beside g m.extent method') (hr : receiver.Beside g m.extent receiver') :
    Shadows g m (Value.Beside g) (boundMethod method receiver m) (boundMethod method' receiver' m') := by
  refine (shadows_bindReceiver h hm hr).bind ?_
  rintro closure closure' n n' hn _ ⟨hc, -⟩
  exact shadows_newFunction hn hc

theorem shadows_instanceProperty {id id' : InstanceId} {c c' : ClassObject} (name : Name)
    (hv : (Value.instanceOf id c).Beside g m.extent (.instanceOf id' c')) :
    Shadows g m (Value.Beside g) (instanceProperty id c name m) (instanceProperty id' c' name m') := by
  obtain ⟨hid, hc⟩ := Value.instanceOf.inj hv.eq
  have hfield : Option.Rel (Value.Beside g m.extent) (m.store.field? id name.text)
      (m'.store.field? id' name.text) := by
    rw [hid, h.store.field?]
    exact optionRel_of_map rfl fun value hf => ⟨h.store.sound.field hf, rfl⟩
  refine (shadows_read (R := fun x => Option.Rel (Value.Beside g x)) h hfield).bind ?_
  intro found found' n n' hn hle hf
  cases hf with
  | some hf => exact shadows_yield hn hf
  | none =>
    have hclass : c.Beside g n.extent c' := ⟨hv.within.2.mono hle, hc⟩
    have hm := hclass.method? name.text
    dsimp only
    generalize c.method? name.text = found, c'.method? name.text = found' at hm
    cases hm with
    | none => exact shadows_fail hn _ _
    | some hm => exact shadows_boundMethod hn hm (hv.mono hle)

theorem shadows_property {object object' : Value} (name : Name) (hv : object.Beside g m.extent object') :
    Shadows g m (Value.Beside g) (property object name m) (property object' name m') := by
  obtain ⟨hw, rfl⟩ := hv
  cases object with
  | instanceOf id c => exact shadows_instanceProperty h name ⟨hw, rfl⟩
  | list id =>
    unfold property
    dsimp only [Value.renumber]
    cases ListMethod.ofName? name.text with
    | some method => exact shadows_yield h ⟨hw, rfl⟩
    | none => exact shadows_fail h _ _
  | _ => exact shadows_fail h _ _

theorem shadows_inheritedMethod (target : Reference) (method : Name) :
    Shadows g m (Value.Beside g) (inheritedMethod target method m) (inheritedMethod target method m') := by
  refine (shadows_depthOf h target.id).bind ?_
  rintro _ depth n n' hn _ rfl
  have hdepth : Shadows g n (fun _ d d' => d' = d)
      (Effect.ofOption target.name.line (.undefinedVariable "super") depth n)
      (Effect.ofOption target.name.line (.undefinedVariable "super") depth n') := by
    refine shadows_ofOption hn _ _ ?_
    cases depth with
    | none => exact .none
    | some depth => exact .some rfl
  refine hdepth.bind ?_
  rintro _ depth n n' hn _ rfl
  refine (shadows_readName hn (some depth) ⟨"super", target.name.line⟩).bind ?_
  intro superclass superclass' n n' hn _ hs
  refine (shadows_readName hn (some (depth - 1)) ⟨"this", target.name.line⟩).bind ?_
  intro receiver receiver' n n' hn hle hr
  have hs := hs.mono hle
  obtain ⟨hsw, rfl⟩ := hs
  obtain ⟨hrw, rfl⟩ := hr
  cases superclass with
  | classObject superclass =>
    cases receiver with
    | instanceOf id c =>
      have hclass : superclass.Beside g n.extent (superclass.renumber g) := ⟨hsw, rfl⟩
      have hm := hclass.method? method.text
      dsimp only [Value.renumber]
      generalize superclass.method? method.text = found,
        (superclass.renumber g).method? method.text = found' at hm
      cases hm with
      | none => exact shadows_fail hn _ _
      | some hm => exact shadows_boundMethod hn hm ⟨hrw, rfl⟩
    | _ => exact shadows_fail hn _ _
  | _ => exact shadows_fail hn _ _

theorem shadows_itemOf (list : ListId) {index index' : Value} (line : Nat)
    (hi : index.Beside g m.extent index') :
    Shadows g m (Value.Beside g) (itemOf list index line m) (itemOf (g.list list) index' line m') := by
  rw [hi.eq]
  refine (shadows_read (R := fun x => ResultRel (Value.Beside g x)) h (h.store.itemAt list index)).bind ?_
  intro result result' n n' hn _ hr
  exact shadows_ofExcept hn line hr

theorem shadows_setItemAt (list : ListId) (line : Nat) {index index' value value' : Value}
    (hi : index.Beside g m.extent index') (hv : value.Beside g m.extent value') :
    Shadows g m (fun _ _ _ => True) (Effect.onStore line (fun s => s.setItemAt list index value) m)
      (Effect.onStore line (fun s => s.setItemAt (g.list list) index' value') m') := by
  rw [hi.eq, hv.eq]
  exact shadows_onStore h line (h.store.setItemAt list index hv.within)

theorem shadows_callListMethod (list : ListId) (method : ListMethod) (line : Nat)
    {arguments arguments' : List Value} (ha : ValuesBeside g m.extent arguments arguments') :
    Shadows g m (Value.Beside g)
      (Effect.onStore line (fun s => s.callListMethod list method arguments) m)
      (Effect.onStore line (fun s => s.callListMethod (g.list list) method arguments') m') := by
  rw [ha.eq]
  exact shadows_onStore h line (h.store.callListMethod list method ha.within)

theorem shadows_newList {items items' : List Value} (hi : ValuesBeside g m.extent items items') :
    Shadows g m (fun x i i' => i < x.lists ∧ i' = g.list i)
      (Effect.make (fun s => s.newList items.toArray) m)
      (Effect.make (fun s => s.newList items'.toArray) m') := by
  have hitems : ∀ v ∈ items.toArray, v.Within m.extent := fun v hv => hi.within v (List.mem_toArray.1 hv)
  rw [hi.eq, ← List.map_toArray]
  refine shadows_make h (h.store.newList hitems) (Store.le_newList_extent _ _) ⟨?_, h.store.newList_id⟩
  simp [Store.newList, Store.extent]

theorem shadows_newInstance : Shadows g m (fun x i i' => i < x.instances ∧ i' = g.instance_ i)
    (Effect.make Store.newInstance m) (Effect.make Store.newInstance m') := by
  refine shadows_make h h.store.newInstance (Store.le_newInstance_extent _) ⟨?_, h.store.newInstance_id⟩
  simp [Store.newInstance, Store.extent]

theorem shadows_setField {id id' : InstanceId} {c c' : ClassObject} (name : String) {value value' : Value}
    (ho : (Value.instanceOf id c).Beside g m.extent (.instanceOf id' c'))
    (hv : value.Beside g m.extent value') :
    Shadows g m (fun _ _ _ => True) (Effect.modifyStore (fun s => s.setField id name value) m)
      (Effect.modifyStore (fun s => s.setField id' name value') m') := by
  rw [(Value.instanceOf.inj ho.eq).1, hv.eq]
  exact shadows_modifyStore h (h.store.setField id name hv.within)
    ((Store.setField_extent m.store id name value).symm ▸ Extent.le_refl _)

end Properties

/-! ## Assignments -/

section Assignments
variable (h : m.Beside g m')
include h

theorem shadows_assignName (node : Expr) (target : Reference) (operator : AssignOperator) {value value' : Value}
    (hv : value.Beside g m.extent value') :
    Shadows g m (Value.Beside g) (Operations.plain.assignName node target operator value m)
      (Operations.plain.assignName node target operator value' m') := by
  refine (shadows_depthOf h target.id).bind ?_
  rintro _ depth n n' hn hle rfl
  have hold := shadows_readName hn depth target.name
  refine (shadows_combine hn operator target.name.line (hv.mono hle) hold).bind ?_
  intro result result' n n' hn _ hr
  refine (shadows_writeName hn depth target.name hr).bind ?_
  intro _ _ n n' hn hle _
  exact shadows_yield hn (hr.mono hle)

theorem shadows_assignField {id id' : InstanceId} {c c' : ClassObject} (name : Name) (operator : AssignOperator)
    {value value' : Value} (ho : (Value.instanceOf id c).Beside g m.extent (.instanceOf id' c'))
    (hv : value.Beside g m.extent value') :
    Shadows g m (Value.Beside g) (Operations.plain.assignField id c name operator value m)
      (Operations.plain.assignField id' c' name operator value' m') := by
  refine (shadows_combine h operator name.line hv (shadows_instanceProperty h name ho)).bind ?_
  intro result result' n n' hn hle hr
  refine (shadows_setField hn name.text (ho.mono hle) hr).bind ?_
  intro _ _ n n' hn hle _
  exact shadows_yield hn (hr.mono hle)

theorem shadows_assignItem (list : ListId) (operator : AssignOperator) (line : Nat)
    {index index' value value' : Value} (hi : index.Beside g m.extent index')
    (hv : value.Beside g m.extent value') :
    Shadows g m (Value.Beside g) (Operations.plain.assignItem list index operator line value m)
      (Operations.plain.assignItem (g.list list) index' operator line value' m') := by
  refine (shadows_combine h operator line hv (shadows_itemOf h list line hi)).bind ?_
  intro result result' n n' hn hle hr
  refine (shadows_setItemAt hn list line (hi.mono hle) hr).bind ?_
  intro _ _ n n' hn hle _
  exact shadows_yield hn (hr.mono hle)

end Assignments

/-! ## Classes -/

theorem methodTable_renumber (g : Gap) (scope : ScopeId) (methods : List FunctionDecl) :
    methodTable (g.scope scope) methods = (methodTable scope methods).mapValues (Closure.renumber g) := by
  unfold methodTable
  rw [Table.mapValues_foldl_put]
  rfl

theorem methodTable_within {x : Extent} {scope : ScopeId} (hscope : scope < x.scopes)
    (methods : List FunctionDecl) : (methodTable scope methods).All (Closure.Within x) :=
  .foldl_put (List.forall_mem_nil _) fun _ _ => hscope

section Classes
variable (h : m.Beside g m')
include h

theorem shadows_superclassOf (line : Nat) (superclass : Option Reference) :
    Shadows g m (fun x => Option.Rel (ClassObject.Beside g x)) (superclassOf line superclass m)
      (superclassOf line superclass m') := by
  cases superclass with
  | none => exact shadows_yield h .none
  | some target =>
    refine (shadows_readReference h target).bind ?_
    rintro value _ n n' hn _ ⟨hw, rfl⟩
    cases value with
    | classObject c => exact shadows_yield hn (.some ⟨hw, rfl⟩)
    | _ => exact shadows_fail hn _ _

theorem shadows_methodScope {superclass superclass' : Option ClassObject}
    (hs : Option.Rel (ClassObject.Beside g m.extent) superclass superclass') :
    Shadows g m (fun x i i' => i < x.scopes ∧ i' = g.scope i) (methodScope superclass m)
      (methodScope superclass' m') := by
  cases hs with
  | none => exact shadows_currentScope h
  | @some c c' hc =>
    refine (shadows_currentScope h).bind ?_
    rintro current _ n n' hn hle ⟨hlt, rfl⟩
    have hwithin : Table.All (Value.Within n.extent) [("super", .classObject c)] :=
      List.forall_mem_singleton.2 (hc.within.mono hle)
    have houter (outer : ScopeId) (ho : some current = some outer) : outer < n.store.scopes.size := by
      cases ho
      exact hlt
    exact shadows_newScope hn _ _ _ _ hwithin (by rw [hc.eq]; rfl) houter rfl

theorem shadows_defineClass (name : Name) (superclass : Option Reference) (methods : List FunctionDecl) :
    Shadows g m (fun _ _ _ => True) (defineClass name superclass methods m)
      (defineClass name superclass methods m') := by
  refine (shadows_superclassOf h name.line superclass).bind ?_
  intro found found' n₁ n₁' h₁ _ hfound
  refine (shadows_defineHere h₁ name.text (Value.Simple.beside (v := .nil) trivial g _)).bind ?_
  intro _ _ n₂ n₂' h₂ hle₂ _
  have hmono : ∀ {x y : Extent}, x ≤ y → Option.Rel (ClassObject.Beside g x) found found' →
      Option.Rel (ClassObject.Beside g y) found found' := by
    intro x y hxy hr
    cases hr with
    | none => exact .none
    | some hc => exact .some (hc.mono hxy)
  have hfound := hmono hle₂ hfound
  refine (shadows_methodScope h₂ hfound).bind ?_
  rintro scope _ n₃ n₃' h₃ hle₃ ⟨hscope, rfl⟩
  have hfound := hmono hle₃ hfound
  rw [methodsIn_eq, methodsIn_eq, methodTable_renumber]
  refine (shadows_yield (R := fun x t t' => t.All (Closure.Within x) ∧
    t' = t.mapValues (Closure.renumber g)) h₃ ⟨methodTable_within hscope methods, rfl⟩).bind ?_
  rintro table _ n₄ n₄' h₄ hle₄ ⟨htable, rfl⟩
  have hfound := hmono hle₄ hfound
  refine (shadows_newIdentity h₄).bind ?_
  rintro id _ n₅ n₅' h₅ hle₅ ⟨hid, rfl⟩
  have hfound := hmono hle₅ hfound
  have hclass : (Value.classObject ⟨id, name.text, found, table⟩).Beside g n₅.extent
      (.classObject ⟨g.identity id, name.text, found', table.mapValues (Closure.renumber g)⟩) := by
    have htable := htable.imp fun c hc => Closure.Within.mono hc hle₅
    cases hfound with
    | none => exact ⟨⟨hid, trivial, htable⟩, rfl⟩
    | some hc => exact ⟨⟨hid, hc.within, htable⟩, by rw [hc.eq]; rfl⟩
  have hholder : Option.Rel (fun i i' => i' = g.scope i) (n₅.store.binder? n₅.current name.text)
      (n₅'.store.binder? n₅'.current name.text) := by
    rw [h₅.current, h₅.store.binder?]
    exact optionRel_of_map rfl fun _ _ => rfl
  refine (shadows_read (R := fun _ => Option.Rel fun i i' => i' = g.scope i) h₅ hholder).bind ?_
  intro holder holder' n₆ n₆' h₆ hle₆ hr
  refine (shadows_ofOption (R := fun _ i i' => i' = g.scope i) h₆ _ _ hr).bind ?_
  rintro holder _ n₇ n₇' h₇ hle₇ rfl
  exact shadows_define h₇ name.text ((hclass.mono hle₆).mono hle₇)

theorem shadows_defineFunction (f : FunctionDecl) :
    Shadows g m (fun _ _ _ => True) (Operations.plain.defineFunction f m)
      (Operations.plain.defineFunction f m') := by
  refine (shadows_currentScope h).bind ?_
  rintro current _ n n' hn _ ⟨hlt, rfl⟩
  have hclosure : (Closure.mk f current false).Beside g n.extent ⟨f, g.scope current, false⟩ := ⟨hlt, rfl⟩
  refine (shadows_newFunction hn hclosure).bind ?_
  intro value value' n n' hn _ hv
  exact shadows_defineHere hn f.name.text hv

end Classes

/-! ## The functions of the language -/

section Builtins
variable (h : m.Beside g m')
include h

theorem shadows_textOf {fuel fuel' : Nat} (hf : fuel ≤ fuel') {value value' : Value}
    (hv : value.Beside g m.extent value') :
    Shadows g m (fun _ text text' => text' = text) (Effect.textOf fuel value m)
      (Effect.textOf fuel' value' m') := by
  unfold Effect.textOf
  rw [hv.eq]
  cases ht : m.store.text? fuel value with
  | none => exact .outOfFuel h.sound (Extent.le_refl _)
  | some text =>
    rw [h.store.text? hf ht]
    exact .done h (Extent.le_refl _) rfl

theorem shadows_readLine (line : Nat) :
    Shadows g m (Value.Beside g) (Effect.readLine line m) (Effect.readLine line m') := by
  refine (shadows_onConsole h line Console.readLine).bind ?_
  rintro _ text n n' hn _ rfl
  cases text with
  | some text => exact shadows_yield hn (Value.Simple.beside (v := .string text) trivial g _)
  | none => exact shadows_yield hn (Value.Simple.beside (v := .nil) trivial g _)

theorem shadows_readClock :
    Shadows g m (Value.Beside g) (Effect.readClock m) (Effect.readClock m') := by
  unfold Effect.readClock
  rw [h.clock]
  exact .done { h with clock := rfl } (Extent.le_refl _) (Value.Simple.beside (v := .float _) trivial g _)

theorem shadows_argumentCount {α : Type} {R : Extent → α → α → Prop} {arguments arguments' : List Value}
    (expected line : Nat) (ha : ValuesBeside g m.extent arguments arguments') :
    Shadows g m R (Effect.fail line (.argumentCount expected arguments.length) m)
      (Effect.fail line (.argumentCount expected arguments'.length) m') := by
  rw [ha.eq, List.length_map]
  exact shadows_fail h _ _

theorem shadows_builtin (builtin : Builtin) {fuel fuel' : Nat} (hf : fuel ≤ fuel')
    {arguments arguments' : List Value} (line : Nat) (ha : ValuesBeside g m.extent arguments arguments') :
    Shadows g m (Value.Beside g) (builtin.call fuel arguments line m)
      (builtin.call fuel' arguments' line m') := by
  obtain ⟨hw, rfl⟩ := ha
  rcases arguments with _ | ⟨value, _ | ⟨second, rest⟩⟩
  · cases builtin with
    | clock => exact shadows_readClock h
    | list =>
      refine (shadows_newList h valuesBeside_nil).bind ?_
      rintro id _ n n' hn _ ⟨hlt, rfl⟩
      exact shadows_yield hn ⟨hlt, rfl⟩
    | _ => exact shadows_fail h _ _
  · have hv : value.Beside g m.extent (value.renumber g) := ⟨hw value List.mem_cons_self, rfl⟩
    have htext := shadows_textOf h hf hv
    cases builtin with
    | print =>
      refine htext.bind ?_
      rintro _ text n n' hn _ rfl
      refine (shadows_onConsole hn line fun c => c.write (text ++ "\n")).bind ?_
      intro _ _ n n' hn _ _
      exact shadows_yield hn (Value.Simple.beside (v := .nil) trivial g _)
    | readline =>
      refine htext.bind ?_
      rintro _ text n n' hn _ rfl
      refine (shadows_onConsole hn line fun c => c.write text).bind ?_
      intro _ _ n n' hn _ _
      exact shadows_readLine hn line
    | int =>
      refine shadows_ofExcept h line ?_
      rw [Value.renumber_toInteger]
      cases hr : value.toInteger with
      | error fault => exact .error fault
      | ok result => exact .ok ((Value.toInteger_simple hr).beside g _)
    | float =>
      refine shadows_ofExcept h line ?_
      rw [Value.renumber_toFloating]
      cases hr : value.toFloating with
      | error fault => exact .error fault
      | ok result => exact .ok ((Value.toFloating_simple hr).beside g _)
    | str =>
      refine htext.bind ?_
      rintro _ text n n' hn _ rfl
      exact shadows_yield hn (Value.Simple.beside (v := .string text) trivial g _)
    | type =>
      refine shadows_yield h ?_
      rw [Value.renumber_typeText]
      exact Value.Simple.beside (v := .string value.typeText) trivial g _
    | _ => exact shadows_fail h _ _
  · have hfail := shadows_argumentCount (R := Value.Beside g) h builtin.arity line ⟨hw, rfl⟩
    cases builtin <;> exact hfail

end Builtins

end LoxLang
