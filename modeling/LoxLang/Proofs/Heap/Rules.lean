import LoxLang.Proofs.Heap
import LoxLang.Proofs.Renumber.Steps

/-!
# Effects on the heap

From a well-formed machine an effect goes from change to change, however it ends, and what it yields is
proper. There is a rule for each effect of which the evaluator consists.
-/

namespace LoxLang

/-- The changes of an effect lead from the machine to another well-formed one. What is yielded has a
property, which may speak of the extent of the store at the end. -/
structure Leads {α : Type} (m : Machine) (Q : Extent → α → Prop) (o : Outcome α) : Prop where
  path : Changes m o.machine
  wellFormed : o.machine.WellFormed
  yields (a : α) (n : Machine) : o = .done a n → Q n.extent a

/-- The values are proper. -/
def ValuesProper (x : Extent) (values : List Value) : Prop := ∀ v ∈ values, v.Proper x

/-- A class that may be missing is proper. -/
def ExtendedProper (x : Extent) (superclass : Option ClassObject) : Prop :=
  ∀ c, superclass = some c → (Value.classObject c).Proper x

section Rules
variable {α β : Type} {m n : Machine} {Q : Extent → α → Prop} {T : Extent → β → Prop}

theorem Leads.extent_le {o : Outcome α} (h : Leads m Q o) : m.extent ≤ o.machine.extent := h.path.kept.extent

theorem Leads.after {o : Outcome α} (h : Leads n Q o) (hp : Changes m n) : Leads m Q o :=
  ⟨hp.trans h.path, h.wellFormed, h.yields⟩

theorem Leads.bind {effect : Effect α} {next : α → Effect β} (h : Leads m Q (effect m))
    (hn : ∀ a n, n.WellFormed → m.extent ≤ n.extent → Q n.extent a → Leads n T (next a n)) :
    Leads m T ((effect >>= next) m) := by
  change Leads m T (Effect.andThen effect next m)
  unfold Effect.andThen
  have hextent := h.extent_le
  obtain ⟨hpath, hwell, hyields⟩ := h
  generalize effect m = o at hpath hwell hyields hextent
  cases o with
  | done a n => exact (hn a n hwell hextent (hyields a n rfl)).after hpath
  | failed e n => exact ⟨hpath, hwell, fun _ _ h => nomatch h⟩
  | outOfFuel n => exact ⟨hpath, hwell, fun _ _ h => nomatch h⟩

variable (h : m.WellFormed)
include h

theorem leads_yield {a : α} (hq : Q m.extent a) : Leads m Q ((pure a : Effect α) m) :=
  ⟨.refl, h, fun _ _ he => by cases he; exact hq⟩

theorem leads_exhausted : Leads m Q ((Effect.exhausted : Effect α) m) :=
  ⟨.refl, h, fun _ _ he => nomatch he⟩

theorem leads_fail (line : Nat) (fault : Fault) : Leads m Q (Effect.fail (α := α) line fault m) :=
  ⟨.refl, h, fun _ _ he => nomatch he⟩

theorem leads_read {find : Machine → α} (hq : Q m.extent (find m)) : Leads m Q (Effect.read find m) :=
  leads_yield h hq

theorem leads_currentScope : Leads m (fun x scope => scope < x.scopes) (Effect.currentScope m) :=
  leads_read h h.current

theorem leads_ofExcept (line : Nat) {result : Except Fault α} (hq : ∀ a, result = .ok a → Q m.extent a) :
    Leads m Q (Effect.ofExcept line result m) := by
  cases result with
  | ok a => exact leads_yield h (hq a rfl)
  | error fault => exact leads_fail h line fault

theorem leads_ofOption (line : Nat) (fault : Fault) {found : Option α}
    (hq : ∀ a, found = some a → Q m.extent a) : Leads m Q (Effect.ofOption line fault found m) := by
  cases found with
  | some a => exact leads_yield h (hq a rfl)
  | none => exact leads_fail h line fault

/-- An effect that makes one change. -/
theorem leads_change {a : α} (hc : Change m n) (hq : Q n.extent a) : Leads m Q (.done a n) :=
  ⟨.single hc, hc.wellFormed h, fun _ _ he => by cases he; exact hq⟩

theorem leads_changed {o : Outcome α} (hc : Change m o.machine) (hq : ∀ a n, o = .done a n → Q n.extent a) :
    Leads m Q o := ⟨.single hc, hc.wellFormed h, hq⟩

theorem leads_define (scope : ScopeId) (name : String) {value : Value} (hv : value.Proper m.extent) :
    Leads m (fun _ _ => True) (Effect.modifyStore (fun s => s.define scope name value) m) :=
  leads_change h (.define scope name hv) trivial

theorem leads_setField (object : InstanceId) (name : String) {value : Value} (hv : value.Proper m.extent) :
    Leads m (fun _ _ => True) (Effect.modifyStore (fun s => s.setField object name value) m) :=
  leads_change h (.setField object name hv) trivial

theorem leads_newScope {bindings : Table Value} {around : ScopeId}
    (hb : ∀ name value, bindings.get? name = some value → value.Proper m.extent)
    (ha : around < m.store.scopes.size) :
    Leads m (fun x scope => scope < x.scopes)
      (Effect.make (fun s => s.newScope bindings (some around)) m) :=
  leads_change h (.openScope hb ha) (by simp [Store.extent])

theorem leads_newIdentity :
    Leads m (fun x id => m.store.nextIdentity ≤ id ∧ id < x.identities) (Effect.make Store.newIdentity m) :=
  leads_change h (.newIdentity m) ⟨Nat.le_refl _, Nat.lt_succ_self _⟩

theorem leads_newInstance : Leads m (fun x id => id < x.instances) (Effect.make Store.newInstance m) :=
  leads_change h (.newInstance m) (by simp [Store.extent])

theorem leads_within {scope : ScopeId} (hscope : scope < m.store.scopes.size) {effect : Effect α}
    (he : ∀ n : Machine, n.WellFormed → n.store = m.store → Leads n Q (effect n)) :
    Leads m Q (Effect.within scope effect m) := by
  have hc : Change m { m with current := scope } := .enter hscope
  have hin := he { m with current := scope } (hc.wellFormed h) rfl
  have hback : m.current < (effect { m with current := scope }).machine.store.scopes.size :=
    Nat.lt_of_lt_of_le h.current hin.extent_le.scopes
  obtain ⟨hpath, hwell, hyields⟩ := hin
  unfold Effect.within
  generalize effect { m with current := scope } = o at hpath hwell hyields hback
  have hpath : Changes m o.machine := (Relation.ReflTransGen.single hc).trans hpath
  cases o with
  | done a n =>
    exact ⟨hpath.tail (.enter hback), (Change.enter hback).wellFormed hwell, fun _ _ he => by
      cases he
      exact hyields a n rfl⟩
  | failed e n => exact ⟨hpath.tail (.enter hback), (Change.enter hback).wellFormed hwell, fun _ _ he => nomatch he⟩
  | outOfFuel n => exact ⟨hpath.tail (.enter hback), (Change.enter hback).wellFormed hwell, fun _ _ he => nomatch he⟩

/-! ## Lists -/

theorem leads_newList {items : List Value} (hi : ValuesProper m.extent items) :
    Leads m (fun x id => (Value.list id).Proper x) (Effect.make (fun s => s.newList items.toArray) m) := by
  have hle := Store.le_newList_extent m.store items.toArray
  have hc : Change m { m with store := (m.store.newList items.toArray).2 } := by
    refine .lists (by simp) fun list value hv => ?_
    rcases Store.mem_items_newList hv with hv | hv
    · exact (hi value (List.mem_toArray.1 hv)).mono hle
    · exact (h.items list value hv).mono hle
  refine leads_change h hc ⟨?_, trivial⟩
  change m.store.lists.size < (m.store.newList items.toArray).2.lists.size
  simp [Store.newList]

/-- An operation on lists that keeps them, with items that were there before or are proper. -/
theorem leads_onLists (line : Nat) {operation : Store → Except Fault α × Store}
    (ho : ∃ lists, (operation m.store).2 = { m.store with lists })
    (hsize : m.store.lists.size ≤ (operation m.store).2.lists.size)
    (hitems : ∀ list, ∀ value ∈ (operation m.store).2.items list,
      value.Proper m.extent ∨ ∃ list, value ∈ m.store.items list)
    (hq : ∀ a, (operation m.store).1 = .ok a → Q (operation m.store).2.extent a) :
    Leads m Q (Effect.onStore line operation m) := by
  obtain ⟨lists, hl⟩ := ho
  have hle : m.extent ≤ (operation m.store).2.extent := by
    rw [hl] at hsize ⊢
    exact { Extent.le_refl _ with lists := hsize }
  have hproper (list : ListId) (value : Value) (hv : value ∈ (operation m.store).2.items list) :
      value.Proper (operation m.store).2.extent := by
    rcases hitems list value hv with hv | ⟨list, hv⟩
    · exact hv.mono hle
    · exact (h.items list value hv).mono hle
  have hc : Change m { m with store := (operation m.store).2 } := by
    rw [hl] at hsize hproper ⊢
    exact .lists hsize hproper
  have hmachine := @onStore_machine α line m operation
  refine ⟨?_, ?_, ?_⟩
  · rw [hmachine]
    exact .single hc
  · rw [hmachine]
    exact hc.wellFormed h
  · intro a n hdone
    have hn : n = { m with store := (operation m.store).2 } := by
      rw [hdone] at hmachine
      exact hmachine
    rw [hn]
    exact hq a (ok_of_onStore_done hdone)

end Rules

namespace Store
variable {s : Store} {list : ListId} {value : Value}

theorem setItemAt_lists_le (s : Store) (list : ListId) (index value : Value) :
    s.lists.size ≤ (s.setItemAt list index value).2.lists.size := by
  unfold setItemAt
  split <;> simp [modifyList]

theorem sliceOf_lists_le (s : Store) (list : ListId) (start stop : Value) :
    s.lists.size ≤ (s.sliceOf list start stop).2.lists.size := by
  unfold sliceOf
  dsimp only
  split <;> simp [newList]

theorem callListMethod_lists_le (s : Store) (list : ListId) (method : ListMethod) (arguments : List Value) :
    s.lists.size ≤ (s.callListMethod list method arguments).2.lists.size := by
  unfold callListMethod
  split
  · simp [modifyList]
  · split <;> simp [modifyList]
  · simp [modifyList]
  · exact Nat.le_refl _
  · exact Nat.le_refl _
  · exact setItemAt_lists_le s list _ _
  · exact sliceOf_lists_le s list _ _
  · exact Nat.le_refl _

/-- What a method of a list yields refers to nothing, or is an item, or is a list that is there. -/
theorem callListMethod_cases {method : ListMethod} {arguments : List Value}
    (h : (s.callListMethod list method arguments).1 = .ok value) :
    value.Simple ∨ value ∈ s.items list ∨
      ∃ id < (s.callListMethod list method arguments).2.lists.size, value = .list id := by
  unfold callListMethod at h ⊢
  split at h
  · cases h
    exact .inl trivial
  · split at h
    · rename_i last hl
      cases h
      exact .inr (.inl (Array.mem_of_back? hl))
    · cases h
  · cases h
    exact .inl trivial
  · cases h
    exact .inl trivial
  · rcases itemAt_cases h with rfl | h
    · exact .inl trivial
    · exact .inr (.inl h)
  · unfold setItemAt at h
    dsimp only at h
    split at h <;> cases h
    exact .inl trivial
  · unfold sliceOf at h ⊢
    dsimp only at h ⊢
    split at h
    · cases h
      exact .inr (.inr ⟨s.lists.size, by simp [newList], rfl⟩)
    · cases h
  · cases h

end Store

section Lists
variable {m : Machine} (h : m.WellFormed)
include h

theorem leads_setItemAt (list : ListId) (index : Value) (line : Nat) {value : Value}
    (hv : value.Proper m.extent) :
    Leads m (fun _ _ => True) (Effect.onStore line (fun s => s.setItemAt list index value) m) := by
  refine leads_onLists h line (Store.setItemAt_eq _ _ _ _) (Store.setItemAt_lists_le _ _ _ _) ?_
    fun _ _ => trivial
  intro other found hm
  rcases Store.mem_items_setItemAt hm with rfl | hm
  · exact .inl hv
  · exact .inr hm

theorem leads_callListMethod (list : ListId) (method : ListMethod) (line : Nat) {arguments : List Value}
    (ha : ValuesProper m.extent arguments) :
    Leads m (fun x v => v.Proper x)
      (Effect.onStore line (fun s => s.callListMethod list method arguments) m) := by
  have hsize := Store.callListMethod_lists_le m.store list method arguments
  have ho := Store.callListMethod_eq m.store list method arguments
  refine leads_onLists h line ho hsize ?_ ?_
  · intro other found hm
    rcases Store.mem_items_callListMethod hm with hm | hm
    · exact .inl (ha found hm)
    · exact .inr hm
  · intro value hv
    have hle : m.extent ≤ (m.store.callListMethod list method arguments).2.extent := by
      obtain ⟨lists, hl⟩ := ho
      rw [hl] at hsize ⊢
      exact { Extent.le_refl _ with lists := hsize }
    rcases Store.callListMethod_cases hv with hv | hv | ⟨id, hid, rfl⟩
    · exact hv.proper _
    · exact (h.items list value hv).mono hle
    · exact ⟨hid, trivial⟩

theorem leads_itemOf (list : ListId) (index : Value) (line : Nat) :
    Leads m (fun x v => v.Proper x) (itemOf list index line m) := by
  refine (leads_read (Q := fun x result => ∀ v, result = .ok v → v.Proper x) h fun v hv => ?_).bind
    fun result n hn _ hr => leads_ofExcept hn line hr
  rcases Store.itemAt_cases hv with rfl | hv
  · exact properNil _
  · exact h.items list v hv

end Lists

/-! ## Names -/

section Names
variable {m : Machine} (h : m.WellFormed)
include h

theorem leads_depthOf (id : NodeId) : Leads m (fun _ _ => True) (depthOf id m) := leads_read h trivial

theorem leads_readName (depth : Option Nat) (name : Name) :
    Leads m (fun x v => v.Proper x) (readName depth name m) := by
  refine (leads_read (Q := fun x found => ∀ v, found = some v → v.Proper x) h fun v hv => ?_).bind
    fun found n hn _ hf => leads_ofOption hn _ _ hf
  obtain ⟨holder, -, hb⟩ := Option.bind_eq_some_iff.1 hv
  exact h.bindings holder name.text v hb

theorem leads_writeName (depth : Option Nat) (name : Name) {value : Value} (hv : value.Proper m.extent) :
    Leads m (fun _ _ => True) (writeName depth name value m) := by
  have hholder : Leads m (fun _ _ => True) (holderOf depth name m) :=
    (leads_read (Q := fun _ _ => True) h trivial).bind fun found n hn _ _ =>
      leads_ofOption hn _ _ fun _ _ => trivial
  exact hholder.bind fun holder n hn hle _ => leads_define hn holder name.text (hv.mono hle)

theorem leads_readReference (target : Reference) :
    Leads m (fun x v => v.Proper x) (readReference target m) :=
  (leads_depthOf h target.id).bind fun depth _ hn _ _ => leads_readName hn depth target.name

theorem leads_defineHere (name : String) {value : Value} (hv : value.Proper m.extent) :
    Leads m (fun _ _ => True) (defineHere name value m) :=
  (leads_currentScope h).bind fun scope _ hn hle _ => leads_define hn scope name (hv.mono hle)

theorem leads_unary (operator : UnaryOperator) (line : Nat) (right : Value) :
    Leads m (fun x v => v.Proper x) (Effect.ofExcept line (operator.apply right) m) :=
  leads_ofExcept h line fun _ hv => (UnaryOperator.apply_simple hv).proper _

theorem leads_binary (operator : BinaryOperator) (line : Nat) (left right : Value) :
    Leads m (fun x v => v.Proper x) (Effect.ofExcept line (operator.apply left right) m) :=
  leads_ofExcept h line fun _ hv => (BinaryOperator.apply_simple hv).proper _

theorem leads_combine (operator : AssignOperator) (line : Nat) {value : Value} (hv : value.Proper m.extent)
    {old : Effect Value} (ho : Leads m (fun x v => v.Proper x) (old m)) :
    Leads m (fun x v => v.Proper x) (combine operator line value old m) := by
  cases operator with
  | plain => exact leads_yield h hv
  | compound operator => exact ho.bind fun old n hn _ _ => leads_binary hn operator line old value

end Names

/-! ## Properties -/

section Properties
variable {m : Machine} (h : m.WellFormed)
include h

theorem leads_bindReceiver {method : Closure} {receiver : Value} (hm : method.Within m.extent)
    (hr : receiver.Proper m.extent) :
    Leads m (fun x c => c.Within x) (bindReceiver method receiver m) := by
  have hbindings (name : String) (value : Value)
      (hb : Table.get? name [("this", receiver)] = some value) : value.Proper m.extent := by
    unfold Table.get? at hb
    split at hb <;> cases hb
    exact hr
  exact (leads_newScope h hbindings hm).bind fun scope n hn _ hs => leads_yield hn hs

theorem leads_newFunction {closure : Closure} (hc : closure.Within m.extent) :
    Leads m (fun x v => v.Proper x) (newFunction closure m) :=
  (leads_newIdentity h).bind fun _ _ hn hle hid => leads_yield hn ⟨⟨hid.2, hc.mono hle⟩, trivial⟩

theorem leads_boundMethod {method : Closure} {receiver : Value} (hm : method.Within m.extent)
    (hr : receiver.Proper m.extent) :
    Leads m (fun x v => v.Proper x) (boundMethod method receiver m) :=
  (leads_bindReceiver h hm hr).bind fun _ _ hn _ hc => leads_newFunction hn hc

theorem leads_instanceProperty {id : InstanceId} {c : ClassObject} (name : Name)
    (hv : (Value.instanceOf id c).Proper m.extent) :
    Leads m (fun x v => v.Proper x) (instanceProperty id c name m) := by
  refine (leads_read (Q := fun x found => ∀ v, found = some v → v.Proper x) h fun v hf =>
    h.fields id name.text v hf).bind fun found n hn hle hf => ?_
  cases found with
  | some value => exact leads_yield hn (hf value rfl)
  | none =>
    dsimp only
    cases hm : c.method? name.text with
    | some method => exact leads_boundMethod hn (hv.within.2.mono hle |>.method? hm) (hv.mono hle)
    | none => exact leads_fail hn _ _

theorem leads_property {object : Value} (name : Name) (hv : object.Proper m.extent) :
    Leads m (fun x v => v.Proper x) (property object name m) := by
  cases object with
  | instanceOf id c => exact leads_instanceProperty h name hv
  | list id =>
    unfold property
    dsimp only
    cases ListMethod.ofName? name.text with
    | some method => exact leads_yield h ⟨hv.within, trivial⟩
    | none => exact leads_fail h _ _
  | _ => exact leads_fail h _ _

theorem leads_inheritedMethod (target : Reference) (method : Name) :
    Leads m (fun x v => v.Proper x) (inheritedMethod target method m) := by
  refine (leads_depthOf h target.id).bind fun depth n hn _ _ => ?_
  refine (leads_ofOption (Q := fun _ _ => True) hn _ _ fun _ _ => trivial).bind fun depth n hn _ _ => ?_
  refine (leads_readName hn (some depth) ⟨"super", target.name.line⟩).bind fun superclass n hn _ hs => ?_
  refine (leads_readName hn (some (depth - 1)) ⟨"this", target.name.line⟩).bind
    fun receiver n hn hle hr => ?_
  split
  · rename_i superclass id c
    cases hm : superclass.method? method.text with
    | some found => exact leads_boundMethod hn (ClassObject.Within.method? (hs.mono hle).within hm) hr
    | none => exact leads_fail hn _ _
  · exact leads_fail hn _ _

end Properties

/-! ## Classes -/

section Classes
variable {m : Machine} (h : m.WellFormed)
include h

theorem leads_superclassOf (line : Nat) (superclass : Option Reference) :
    Leads m ExtendedProper (superclassOf line superclass m) := by
  cases superclass with
  | none => exact leads_yield h fun _ hc => nomatch hc
  | some target =>
    refine (leads_readReference h target).bind fun value n hn _ hv => ?_
    cases value with
    | classObject c =>
      refine leads_yield hn fun c' hc => ?_
      cases hc
      exact hv
    | _ => exact leads_fail hn _ _

theorem leads_methodScope {superclass : Option ClassObject} (hs : ExtendedProper m.extent superclass) :
    Leads m (fun x scope => scope < x.scopes) (methodScope superclass m) := by
  cases superclass with
  | none => exact leads_currentScope h
  | some c =>
    refine (leads_currentScope h).bind fun current n hn hle hcurrent => ?_
    refine leads_newScope hn (fun name value hb => ?_) hcurrent
    unfold Table.get? at hb
    split at hb <;> cases hb
    exact (hs c rfl).mono hle

omit h in
/-- A class with a new identity extends older classes. -/
theorem proper_of_newIdentity {x y : Extent} {id : Identity} {name : String}
    {superclass : Option ClassObject} {methods : Table Closure} (hs : ExtendedProper x superclass)
    (hxy : x ≤ y) (hle : x.identities ≤ id) (hid : id < y.identities)
    (hm : methods.All (Closure.Within y)) : (Value.classObject ⟨id, name, superclass, methods⟩).Proper y := by
  cases superclass with
  | none => exact ⟨⟨hid, trivial, hm⟩, List.pairwise_singleton _ _⟩
  | some c =>
    obtain ⟨hwithin, hordered⟩ := hs c rfl
    refine ⟨⟨hid, ClassObject.Within.mono hwithin hxy, hm⟩, List.pairwise_cons.2 ⟨fun d hd => ?_, hordered⟩⟩
    exact Nat.lt_of_lt_of_le (ClassObject.Within.lineage hwithin d hd).id_lt hle

theorem leads_defineClass (name : Name) (superclass : Option Reference) (methods : List FunctionDecl) :
    Leads m (fun _ _ => True) (defineClass name superclass methods m) := by
  refine (leads_superclassOf h name.line superclass).bind fun found n hn _ hfound => ?_
  refine (leads_defineHere hn name.text (properNil _)).bind fun _ n hn hle _ => ?_
  have hfound : ExtendedProper n.extent found := fun c hc => (hfound c hc).mono hle
  refine (leads_methodScope hn hfound).bind fun scope n hn hle hscope => ?_
  have hfound : ExtendedProper n.extent found := fun c hc => (hfound c hc).mono hle
  rw [methodsIn_eq]
  refine (leads_yield (Q := fun x table => Table.All (Closure.Within x) table) hn
    (methodTable_within hscope methods)).bind fun table n hn hle htable => ?_
  have hfound : ExtendedProper n.extent found := fun c hc => (hfound c hc).mono hle
  have hidentity := leads_newIdentity hn
  refine hidentity.bind fun id n' hn' hle hid => ?_
  have hclass : (Value.classObject ⟨id, name.text, found, table⟩).Proper n'.extent :=
    proper_of_newIdentity hfound hle hid.1 hid.2 (htable.imp fun _ hm => hm.mono hle)
  refine (leads_read (Q := fun _ _ => True) hn' trivial).bind fun holder n hn hle _ => ?_
  have hclass := hclass.mono hle
  refine (leads_ofOption (Q := fun _ _ => True) hn _ _ fun _ _ => trivial).bind fun holder n hn hle _ => ?_
  exact leads_define hn holder name.text (hclass.mono hle)

end Classes

/-! ## The functions of the language -/

section Builtins
variable {m : Machine} (h : m.WellFormed)
include h

theorem leads_onConsole {α : Type} (line : Nat) (operation : Console → Except Fault α × Console) :
    Leads m (fun _ _ => True) (Effect.onConsole line operation m) := by
  have hc : Change m { m with console := (operation m.console).2 } := .console m _
  rw [← @onConsole_machine α line m operation] at hc
  exact leads_changed h hc fun _ _ _ => trivial

theorem leads_textOf (fuel : Nat) (value : Value) : Leads m (fun _ _ => True) (Effect.textOf fuel value m) := by
  unfold Effect.textOf
  cases m.store.text? fuel value with
  | some text => exact leads_yield h trivial
  | none => exact leads_exhausted h

theorem leads_readLine (line : Nat) : Leads m (fun x v => v.Proper x) (Effect.readLine line m) := by
  refine (leads_onConsole h line Console.readLine).bind fun text n hn _ _ => ?_
  cases text with
  | some text => exact leads_yield hn (Value.Simple.proper (v := .string text) trivial _)
  | none => exact leads_yield hn (properNil _)

theorem leads_builtin (builtin : Builtin) (fuel : Nat) (arguments : List Value) (line : Nat) :
    Leads m (fun x v => v.Proper x) (builtin.call fuel arguments line m) := by
  unfold Builtin.call
  split
  · refine (leads_textOf h fuel _).bind fun text n hn _ _ => ?_
    exact (leads_onConsole hn line _).bind fun _ n hn _ _ => leads_yield hn (properNil _)
  · exact leads_change h (.clock m) (Value.Simple.proper (v := .float _) trivial _)
  · refine (leads_textOf h fuel _).bind fun text n hn _ _ => ?_
    exact (leads_onConsole hn line _).bind fun _ n hn _ _ => leads_readLine hn line
  · exact leads_ofExcept h line fun v hv => (Value.toInteger_simple hv).proper _
  · exact leads_ofExcept h line fun v hv => (Value.toFloating_simple hv).proper _
  · refine (leads_textOf h fuel _).bind fun text n hn _ _ => ?_
    exact leads_yield hn (Value.Simple.proper (v := .string text) trivial _)
  · exact leads_yield h (Value.Simple.proper (v := .string _) trivial _)
  · exact (leads_newList h (List.forall_mem_nil _)).bind fun _ _ hn _ hv => leads_yield hn hv
  · exact leads_fail h line _

end Builtins

end LoxLang
