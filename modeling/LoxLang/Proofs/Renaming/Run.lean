import LoxLang.Proofs.Effect
import LoxLang.Proofs.Renaming.Effect
import LoxLang.Session

/-!
# Running the renamed program

Every operation of the evaluator matches itself on code in which names are exchanged: each name is looked for
in the same scope, and there under the name that this scope has for it. So the runs of the two programs end in
the same way.
-/

namespace LoxLang

variable {ρ : Renaming} {w later : World} {scope : ScopeId} {n : Nesting}

/-! ## Names -/

/-- Keywords are not exchanged, so `this` and `super` are bound everywhere under their own names. -/
def Renaming.Spares (ρ : Renaming) : Prop := ∀ k : Keyword, exchange ρ.old ρ.new k.text = k.text

/-- The name is used at a place where names are exchanged, and it is not the new one. -/
theorem used_error {name : String} (h : n ≠ none → name ≠ ρ.new) (depth : Option Nat) (line : Nat) :
    ErrorsMatch ρ ⟨.undefinedVariable name, line⟩ ⟨.undefinedVariable (ρ.used n depth name), line⟩ := by
  unfold Renaming.used
  split
  · next hused =>
    by_cases ho : name = ρ.old
    · rw [ho, exchange_old]
      exact .undefined
    · rw [exchange_of_ne ho (h hused.1)]
      exact .same
  · exact .same

/-- A name has the same holder, which binds it under the name that it is used by. -/
theorem Abreast.holder {m m' : Machine} (hm : Abreast ρ w scope m m') (hn : w[scope]? = some n)
    (depth : Option Nat) (name : String) :
    m'.holder? depth (ρ.used n depth name) = m.holder? depth name ∧
      ∀ holder, m.holder? depth name = some holder →
        ∃ k, w[holder]? = some k ∧ ρ.key k name = ρ.used n depth name := by
  unfold Machine.holder?
  cases depth with
  | none =>
    have hused : ρ.used n none name = name := if_neg fun h => h.1 h.2.symm
    obtain ⟨hsame, hnesting⟩ := hm.store.binder hm.outside name
    dsimp only
    rw [hused, hm.globals]
    exact ⟨hsame, fun holder hholder => ⟨none, hnesting holder hholder, ρ.key_none name⟩⟩
  | some distance =>
    dsimp only
    rw [hm.current, hm.current']
    exact hm.store.binderAt distance name hn

theorem depthOf_match (id : NodeId) :
    EffectsMatch ρ w scope (fun _ d d' => d = ρ.depth id ∧ d' = ρ.depth id) (depthOf id) (depthOf id) :=
  .read fun _ _ hm => ⟨hm.depths id, hm.depths' ▸ hm.depths id⟩

/-- The second name is used at the nesting for the first one, and says so if it is undefined. -/
structure NamesMatch (ρ : Renaming) (n : Nesting) (depth : Option Nat) (name name' : Name) : Prop where
  text : name'.text = ρ.used n depth name.text
  line : name'.line = name.line
  error : ErrorsMatch ρ ⟨.undefinedVariable name.text, name.line⟩ ⟨.undefinedVariable name'.text, name.line⟩

theorem Reference.rename_match (target : Reference) (hnew : n ≠ none → target.name.text ≠ ρ.new) :
    NamesMatch ρ n (ρ.depth target.id) target.name (target.rename ρ n).name where
  text := target.rename_text
  line := by
    unfold Reference.rename
    split <;> rfl
  error := by
    rw [target.rename_text]
    exact used_error hnew _ _

theorem keyword_match (hρ : ρ.Spares) (k : Keyword) (line : Nat) (depth : Option Nat) :
    NamesMatch ρ n depth ⟨k.text, line⟩ ⟨k.text, line⟩ :=
  ⟨(used_of_fixed (hρ k)).symm, rfl, .same⟩

/-- The object whose method runs is called `this`. -/
theorem receiver_match (hρ : ρ.Spares) {target : Reference} (hnew : ρ.Admits n (.receiver target))
    (depth : Option Nat) : NamesMatch ρ n depth target.name target.name := by
  refine ⟨?_, rfl, .same⟩
  unfold Renaming.used
  split
  · next hused =>
    have hthis : target.name.text = "this" := (hnew hused.1).2
    rw [hthis]
    exact (hρ .thisWord).symm
  · rfl

section Admits
variable {e : Expr} (h : ρ.Admits n e)
include h

theorem Renaming.Admits.part {part : Expr} (hp : part ∈ e.parts) : ρ.Admits n part :=
  fun hn => ⟨fun hm => (h hn).1 (Expr.part_names hp hm), (h hn).2.part hp⟩

theorem Renaming.Admits.unused (hn : n ≠ none) {name : String} (hname : name ∈ e.names) : name ≠ ρ.new :=
  fun he => (h hn).1 (he ▸ hname)

end Admits

section Names
variable (hn : w[scope]? = some n) {depth : Option Nat} {name name' : Name}
include hn

theorem readName_match (h : NamesMatch ρ n depth name name') :
    EffectsMatch ρ w scope (ValuesMatch ρ) (readName depth name) (readName depth name') := by
  have hread : EffectsMatch ρ w scope (fun w => Option.Rel (ValuesMatch ρ w))
      (Effect.read fun m =>
        (m.holder? depth name.text).bind fun holder => m.store.binding? holder name.text)
      (Effect.read fun m =>
        (m.holder? depth name'.text).bind fun holder => m.store.binding? holder name'.text) := by
    refine .read fun m m' hm => ?_
    obtain ⟨hsame, hkey⟩ := hm.holder hn depth name.text
    rw [h.text, hsame]
    cases hholder : m.holder? depth name.text with
    | none => exact .none
    | some holder =>
      obtain ⟨k, hk, hused⟩ := hkey holder hholder
      have hb := hm.store.bindings holder k hk name.text
      rwa [hused] at hb
  unfold readName
  rw [h.line]
  exact hread.bind fun later hl found found' hf => .ofOption name.line h.error hf

theorem writeName_match (h : NamesMatch ρ n depth name name') {v v' : Value} (hv : ValuesMatch ρ w v v') :
    EffectsMatch ρ w scope (fun _ _ _ => True) (writeName depth name v) (writeName depth name' v') := by
  have hread : EffectsMatch ρ w scope
      (fun w => Option.Rel fun holder holder' => holder' = holder ∧
        ∃ k, w[holder]? = some k ∧ ρ.key k name.text = name'.text)
      (Effect.read fun m => m.holder? depth name.text) (Effect.read fun m => m.holder? depth name'.text) := by
    refine .read fun m m' hm => ?_
    obtain ⟨hsame, hkey⟩ := hm.holder hn depth name.text
    rw [h.text, hsame]
    cases hholder : m.holder? depth name.text with
    | none => exact .none
    | some holder => exact .some ⟨rfl, hkey holder hholder⟩
  have hholder : EffectsMatch ρ w scope
      (fun w holder holder' => holder' = holder ∧ ∃ k, w[holder]? = some k ∧ ρ.key k name.text = name'.text)
      (holderOf depth name) (holderOf depth name') := by
    unfold holderOf
    rw [h.line]
    exact hread.bind fun later hl found found' hf => .ofOption name.line h.error hf
  refine hholder.bind ?_
  rintro later hl holder _ ⟨rfl, k, hk, hkey⟩
  refine .modifyStore fun s s' hs => ?_
  rw [← hkey]
  exact hs.define hk name.text (hv.grow hl)

theorem readReference_match {target : Reference} (hnew : ρ.Admits n (.reference target)) :
    EffectsMatch ρ w scope (ValuesMatch ρ) (readReference target) (readReference (target.rename ρ n)) := by
  unfold readReference
  rw [Reference.rename_id]
  refine (depthOf_match target.id).bind ?_
  rintro later hl _ _ ⟨rfl, rfl⟩
  exact readName_match (hl.nesting hn) (target.rename_match fun h => hnew.unused h List.mem_cons_self)

theorem defineHere_match (name : String) {v v' : Value} (hv : ValuesMatch ρ w v v') :
    EffectsMatch ρ w scope (fun _ _ _ => True) (defineHere name v) (defineHere (ρ.key n name) v') := by
  refine EffectsMatch.currentScope.bind ?_
  rintro later hl _ _ ⟨rfl, rfl⟩
  exact .modifyStore fun s s' hs => hs.define (hl.nesting hn) name (hv.grow hl)

end Names

/-! ## Operators -/

theorem unary_match (operator : UnaryOperator) (line : Nat) {v v' : Value} (hv : ValuesMatch ρ w v v') :
    EffectsMatch ρ w scope (ValuesMatch ρ) (Effect.ofExcept line (operator.apply v))
      (Effect.ofExcept line (operator.apply v')) := by
  rw [hv.unary operator]
  exact .ofExcept line (.refl fun _ h => .codeFree (UnaryOperator.apply_codeFree h))

theorem binary_match (operator : BinaryOperator) (line : Nat) {v v' u u' : Value}
    (hv : ValuesMatch ρ w v v') (hu : ValuesMatch ρ w u u') :
    EffectsMatch ρ w scope (ValuesMatch ρ) (Effect.ofExcept line (operator.apply v u))
      (Effect.ofExcept line (operator.apply v' u')) := by
  rw [hv.binary operator hu]
  exact .ofExcept line (.refl fun _ h => .codeFree (BinaryOperator.apply_codeFree h))

theorem combine_match (operator : AssignOperator) (line : Nat) {v v' : Value} {old old' : Effect Value}
    (hv : ValuesMatch ρ w v v') (ho : EffectsMatch ρ w scope (ValuesMatch ρ) old old') :
    EffectsMatch ρ w scope (ValuesMatch ρ) (combine operator line v old) (combine operator line v' old') := by
  cases operator with
  | plain => exact .yield hv
  | compound operator =>
    exact ho.bind fun later hl before before' hb => binary_match operator line hb (hv.grow hl)

/-! ## Properties -/

theorem bindingsMatch_single (k : Nesting) (name : String) {v v' : Value} (hv : ValuesMatch ρ w v v') :
    BindingsMatch ρ w k.inner [(name, v)] [(name, v')] := by
  have hput := (bindingsMatch_nil (ρ := ρ) (w := w) k.inner).put name hv
  rwa [Renaming.key_inner] at hput

theorem bindReceiver_match {c c' : Closure} {v v' : Value} (hc : MethodsMatch ρ w c c')
    (hv : ValuesMatch ρ w v v') :
    EffectsMatch ρ w scope (fun w f f' => ClosuresMatch ρ w f f' ∧ f.arity = c.arity) (bindReceiver c v)
      (bindReceiver c' v') := by
  obtain ⟨n, hn, hcode⟩ := hc.code
  obtain ⟨k, hk, rfl⟩ := Option.map_eq_some_iff.1 hn
  unfold bindReceiver
  rw [hc.scope]
  refine (EffectsMatch.newScope hk .inner (bindingsMatch_single k "this" hv)).bind ?_
  rintro later hl opened _ ⟨rfl, ho⟩
  exact .yield ⟨⟨rfl, hc.isInitializer, k.inner, ho, hcode⟩, rfl⟩

theorem newIdentity_match :
    EffectsMatch ρ w scope (fun _ a a' => a' = a) (Effect.make Store.newIdentity)
      (Effect.make Store.newIdentity) := .make fun _ _ hs => hs.newIdentity

theorem newFunction_match {c c' : Closure} (hc : ClosuresMatch ρ w c c') :
    EffectsMatch ρ w scope (ValuesMatch ρ) (newFunction c) (newFunction c') := by
  refine newIdentity_match.bind ?_
  rintro later hl _ id rfl
  exact .yield (.function (ClosuresMatch.grow hl hc))

theorem boundMethod_match {c c' : Closure} {v v' : Value} (hc : MethodsMatch ρ w c c')
    (hv : ValuesMatch ρ w v v') :
    EffectsMatch ρ w scope (ValuesMatch ρ) (boundMethod c v) (boundMethod c' v') :=
  (bindReceiver_match hc hv).bind fun _ _ _ _ h => newFunction_match h.1

theorem instanceProperty_match (id : InstanceId) {c c' : ClassObject} (name : Name)
    (hc : ClassesMatch ρ w c c') :
    EffectsMatch ρ w scope (ValuesMatch ρ) (instanceProperty id c name) (instanceProperty id c' name) := by
  have hfield : EffectsMatch ρ w scope (fun w => Option.Rel (ValuesMatch ρ w))
      (Effect.read fun m => m.store.field? id name.text) (Effect.read fun m => m.store.field? id name.text) :=
    .read fun m m' hm => hm.store.fields id name.text
  refine hfield.bind fun later hl found found' hf => ?_
  have hc := hc.grow hl
  cases hf with
  | some hv => exact .yield hv
  | none =>
    have hm := hc.method name.text
    dsimp only
    generalize c.method? name.text = found, c'.method? name.text = found' at hm
    cases hm with
    | none => exact .fail _ _
    | some hm => exact boundMethod_match hm (.instanceOf hc)

theorem property_match {v v' : Value} (name : Name) (hv : ValuesMatch ρ w v v') :
    EffectsMatch ρ w scope (ValuesMatch ρ) (property v name) (property v' name) := by
  cases hv with
  | instanceOf hc => exact instanceProperty_match _ name hc
  | codeFree hf =>
    cases v with
    | list id =>
      unfold property
      dsimp only
      cases ListMethod.ofName? name.text with
      | some method => exact .yield (.codeFree trivial)
      | none => exact .fail _ _
    | instanceOf => cases hf
    | _ => exact .fail _ _
  | _ => exact .fail _ _

theorem inheritedMethod_match (hρ : ρ.Spares) (hn : w[scope]? = some n) (target : Reference)
    (method : Name) :
    EffectsMatch ρ w scope (ValuesMatch ρ) (inheritedMethod target method) (inheritedMethod target method) := by
  refine (depthOf_match target.id).bind ?_
  rintro later hl _ _ ⟨rfl, rfl⟩
  have hdepth : EffectsMatch ρ later scope (fun _ d d' => d' = d)
      (Effect.ofOption target.name.line (.undefinedVariable "super") (ρ.depth target.id))
      (Effect.ofOption target.name.line (.undefinedVariable "super") (ρ.depth target.id)) := by
    refine .ofOption _ .same ?_
    cases ρ.depth target.id with
    | none => exact .none
    | some d => exact .some rfl
  have hn := hl.nesting hn
  refine hdepth.bind ?_
  rintro later hl _ depth rfl
  have hn := hl.nesting hn
  refine (readName_match hn (keyword_match hρ .superWord target.name.line (some depth))).bind ?_
  intro later hl superclass superclass' hsuperclass
  have hn := hl.nesting hn
  refine (readName_match hn (keyword_match hρ .thisWord target.name.line (some (depth - 1)))).bind ?_
  intro later hl receiver receiver' hreceiver
  have hsuperclass := hsuperclass.grow hl
  cases hsuperclass with
  | @classObject c c' hc =>
    cases hreceiver with
    | instanceOf hd =>
      have hm := hc.method method.text
      dsimp only
      generalize c.method? method.text = found, c'.method? method.text = found' at hm
      cases hm with
      | none => exact .fail _ _
      | some hm => exact boundMethod_match hm (.instanceOf hd)
    | codeFree hf => cases receiver <;> first | exact .fail _ _ | cases hf
    | _ => exact .fail _ _
  | codeFree hf => cases superclass <;> first | exact .fail _ _ | cases hf
  | _ => exact .fail _ _

theorem newInstance_match {c c' : ClassObject} (hc : ClassesMatch ρ w c c') :
    EffectsMatch ρ w scope (fun w id id' => ValuesMatch ρ w (.instanceOf id c) (.instanceOf id' c'))
      (Effect.make Store.newInstance) (Effect.make Store.newInstance) := by
  refine .make fun s s' hs => ?_
  obtain ⟨hid, hs⟩ := hs.newInstance
  rw [hid]
  exact ⟨.instanceOf hc, hs⟩

/-! ## Lists and assignments -/

theorem itemOf_match (list : ListId) (line : Nat) {v v' : Value} (hv : ValuesMatch ρ w v v') :
    EffectsMatch ρ w scope (ValuesMatch ρ) (itemOf list v line) (itemOf list v' line) := by
  have hread : EffectsMatch ρ w scope (fun w => ResultsMatch (ValuesMatch ρ w))
      (Effect.read fun m => m.store.itemAt list v) (Effect.read fun m => m.store.itemAt list v') :=
    .read fun m m' hm => hm.store.itemAt list hv
  exact hread.bind fun later hl result result' hr => .ofExcept line hr

theorem newList_match {vs vs' : List Value} (hvs : ArgumentsMatch ρ w vs vs') :
    EffectsMatch ρ w scope (fun _ id id' => id' = id) (Effect.make fun s => s.newList vs.toArray)
      (Effect.make fun s => s.newList vs'.toArray) :=
  .make fun _ _ hs => hs.newList (.of_arguments hvs)

theorem assignName_match (hn : w[scope]? = some n) {target : Reference} {operator : AssignOperator} {e e' : Expr}
    (hnew : ρ.Admits n (.assign target operator e)) {v v' : Value} (hv : ValuesMatch ρ w v v') :
    EffectsMatch ρ w scope (ValuesMatch ρ)
      (Operations.plain.assignName (.assign target operator e) target operator v)
      (Operations.plain.assignName (.assign (target.rename ρ n) operator e') (target.rename ρ n) operator v') := by
  unfold Operations.assignName
  rw [Reference.rename_id]
  refine (depthOf_match target.id).bind ?_
  rintro later hl _ _ ⟨rfl, rfl⟩
  have hn := hl.nesting hn
  have hname := target.rename_match (n := n) fun h => hnew.unused h List.mem_cons_self
  rw [hname.line]
  refine (combine_match operator target.name.line (hv.grow hl) (readName_match hn hname)).bind ?_
  intro later hl u u' hu
  exact (writeName_match (hl.nesting hn) hname hu).bind fun last hl _ _ _ => .yield (hu.grow hl)

theorem assignField_match (id : InstanceId) {c c' : ClassObject} (name : Name) (operator : AssignOperator)
    (hc : ClassesMatch ρ w c c') {v v' : Value} (hv : ValuesMatch ρ w v v') :
    EffectsMatch ρ w scope (ValuesMatch ρ) (Operations.plain.assignField id c name operator v)
      (Operations.plain.assignField id c' name operator v') := by
  refine (combine_match operator name.line hv (instanceProperty_match id name hc)).bind fun _ hl u u' hu => ?_
  refine (EffectsMatch.modifyStore fun s s' hs => hs.setField id name.text hu).bind fun _ hl _ _ _ => ?_
  exact .yield (hu.grow hl)

theorem assignItem_match (list : ListId) (operator : AssignOperator) (line : Nat) {i i' v v' : Value}
    (hi : ValuesMatch ρ w i i') (hv : ValuesMatch ρ w v v') :
    EffectsMatch ρ w scope (ValuesMatch ρ) (Operations.plain.assignItem list i operator line v)
      (Operations.plain.assignItem list i' operator line v') := by
  refine (combine_match operator line hv (itemOf_match list line hi)).bind fun later hl u u' hu => ?_
  refine (EffectsMatch.onStore (R := fun _ _ _ => True) line fun s s' hs =>
    hs.setItemAt list (hi.grow hl) hu).bind fun _ hl _ _ _ => ?_
  exact .yield (hu.grow hl)

/-! ## Classes -/

theorem superclassOf_match (hn : w[scope]? = some n) (line : Nat) {superclass : Option Reference}
    (hnew : ∀ target ∈ superclass, ρ.Admits n (.reference target)) :
    EffectsMatch ρ w scope
      (fun w c c' => Option.Rel (ClassesMatch ρ w) c c' ∧ c.isSome = superclass.isSome)
      (superclassOf line superclass) (superclassOf line (renameSuperclass ρ n superclass)) := by
  cases superclass with
  | none => exact .yield ⟨.none, rfl⟩
  | some target =>
    refine (readReference_match hn (hnew target rfl)).bind fun later hl v v' hv => ?_
    cases hv with
    | classObject hc => exact .yield ⟨.some hc, rfl⟩
    | codeFree hf => cases v <;> first | exact .fail _ _ | cases hf
    | _ => exact .fail _ _

/-- The methods of a class have the same names. -/
theorem methodTable_match {k : Nesting} (hk : w[scope]? = some k) {methods methods' : List FunctionDecl}
    (hm : MethodsRenamed ρ k.inner methods methods') (name : String) :
    Option.Rel (MethodsMatch ρ w) ((methodTable scope methods).get? name)
      ((methodTable scope methods').get? name) := by
  suffices ∀ table table' : Table Closure,
      (∀ name, Option.Rel (MethodsMatch ρ w) (table.get? name) (table'.get? name)) →
      Option.Rel (MethodsMatch ρ w)
        (Table.get? name (methods.foldl (fun table declaration => Table.put declaration.name.text
          ⟨declaration, scope, declaration.name.text == initializerName⟩ table) table))
        (Table.get? name (methods'.foldl (fun table declaration => Table.put declaration.name.text
          ⟨declaration, scope, declaration.name.text == initializerName⟩ table) table')) from
    this [] [] fun _ => .none
  generalize hinner : k.inner = inner at hm
  induction methods generalizing methods' with
  | nil =>
    cases hm
    exact fun _ _ h => h name
  | cons f rest ih =>
    cases hm with
    | cons hf hrest =>
      intro table table' h
      refine ih hrest _ _ fun found => ?_
      dsimp only
      rw [hf.declared_name, Table.get?_put, Table.get?_put]
      split
      · exact .some ⟨rfl, rfl, inner, by rw [hk, ← hinner]; rfl, hf⟩
      · exact h found

theorem methodScope_match (hn : w[scope]? = some n) {superclass superclass' : Option ClassObject}
    {reference : Option Reference} (hc : Option.Rel (ClassesMatch ρ w) superclass superclass')
    (hsome : superclass.isSome = reference.isSome) :
    EffectsMatch ρ w scope (fun w i i' => i' = i ∧ w[i]? = some (n.inClass reference))
      (methodScope superclass) (methodScope superclass') := by
  unfold Nesting.inClass
  rw [← hsome]
  cases hc with
  | none =>
    refine .read fun m m' hm => ⟨hm.current'.trans hm.current.symm, ?_⟩
    rw [hm.current]
    exact hn
  | some hc =>
    refine EffectsMatch.currentScope.bind ?_
    rintro later hl _ _ ⟨rfl, rfl⟩
    exact .newScope (hl.nesting hn) .inner (bindingsMatch_single n "super" (.classObject (hc.grow hl)))

theorem classesMatch_of_methods {k : Nesting} {superclass superclass' : Option ClassObject}
    {methods methods' : List FunctionDecl} (id : Identity) (name : String) (hk : w[scope]? = some k)
    (hc : Option.Rel (ClassesMatch ρ w) superclass superclass')
    (hm : MethodsRenamed ρ k.inner methods methods') :
    ClassesMatch ρ w ⟨id, name, superclass, methodTable scope methods⟩
      ⟨id, name, superclass', methodTable scope methods'⟩ := by
  refine ⟨rfl, rfl, fun found => ?_⟩
  have htable := methodTable_match hk hm found
  unfold ClassObject.method?
  generalize (methodTable scope methods).get? found = method,
    (methodTable scope methods').get? found = method' at htable
  cases htable with
  | some h => exact .some h
  | none =>
    cases hc with
    | none => exact .none
    | some hc => exact hc.method found

/-- The rest of a class statement when the superclass is known: the name is bound in the current scope, first
to `nil` and then to the class. -/
def bindClass (name : Name) (methods : List FunctionDecl) (superclass : Option ClassObject) : Effect Unit := do
  defineHere name.text .nil
  let scope ← methodScope superclass
  let methods ← methodsIn scope methods
  let id ← Effect.make Store.newIdentity
  defineHere name.text (.classObject ⟨id, name.text, superclass, methods⟩)

theorem bindClass_match (hn : w[scope]? = some n) {name : Name} {superclass superclass' : Option ClassObject}
    {reference : Option Reference} {methods methods' : List FunctionDecl} (hl : ρ.Leaves n name)
    (hc : Option.Rel (ClassesMatch ρ w) superclass superclass') (hsome : superclass.isSome = reference.isSome)
    (hm : MethodsRenamed ρ (n.inClass reference).inner methods methods') :
    EffectsMatch ρ w scope (fun _ _ _ => True) (bindClass name methods superclass)
      (bindClass name methods' superclass') := by
  have hkey : ρ.key n name.text = name.text := by
    unfold Renaming.key
    split
    · next hzero => exact hl hzero
    · rfl
  have hdefine {later : World} (hlater : w.Grows later) {v v' : Value} (hv : ValuesMatch ρ later v v') :
      EffectsMatch ρ later scope (fun _ _ _ => True) (defineHere name.text v) (defineHere name.text v') := by
    have hdefined := defineHere_match (hlater.nesting hn) name.text hv
    rwa [hkey] at hdefined
  refine (hdefine (List.prefix_refl w) valuesMatch_nil).bind fun later hl _ _ _ => ?_
  have hc := optionRel_imp (fun _ _ h => h.grow hl) hc
  refine (methodScope_match (hl.nesting hn) hc hsome).bind ?_
  rintro last hlast _ inside ⟨rfl, hinside⟩
  rw [methodsIn_eq, methodsIn_eq]
  refine (EffectsMatch.yield (R := fun _ table table' =>
    table = methodTable inside methods ∧ table' = methodTable inside methods') ⟨rfl, rfl⟩).bind ?_
  rintro _ hl₁ _ _ ⟨rfl, rfl⟩
  refine newIdentity_match.bind ?_
  rintro _ hl₂ _ id rfl
  have hgrows := (hlast.trans hl₁).trans hl₂
  have hc := optionRel_imp (fun _ _ h => h.grow hgrows) hc
  exact hdefine (hl.trans hgrows)
    (.classObject (classesMatch_of_methods id name.text (hl₂.nesting (hl₁.nesting hinside)) hc hm))

theorem binder_here {s : Store} {scope : ScopeId} {name : String} (h : (s.binding? scope name).isSome) :
    s.binder? scope name = some scope := by
  have hlt := Store.lt_size_of_bound h
  unfold Store.binder? Store.chain Store.chainFrom
  rw [Array.getElem?_eq_getElem hlt]
  dsimp only
  split <;> exact List.find?_cons_of_pos h

/-- Looking for the superclass changes nothing. -/
theorem superclassOf_done {line : Nat} {superclass : Option Reference} {found : Option ClassObject}
    {m after : Machine} (h : superclassOf line superclass m = .done found after) : after = m := by
  cases superclass with
  | none =>
    cases h
    rfl
  | some target =>
    simp only [superclassOf, readReference, depthOf, readName, bind, Effect.andThen, Effect.read,
      Effect.ofOption, Effect.ofExcept] at h
    cases hv : (m.holder? m.depths[target.id]? target.name.text).bind fun holder =>
        m.store.binding? holder target.name.text with
    | none =>
      rw [hv] at h
      cases h
    | some value =>
      rw [hv] at h
      cases value <;> cases h
      rfl

/-- The scope that the name of a class is looked for in, from where it was just bound, is the current one. -/
theorem defineClass_eq (name : Name) (superclass : Option Reference) (methods : List FunctionDecl)
    {m : Machine} (h : m.current < m.store.scopes.size) :
    defineClass name superclass methods m =
      (superclassOf name.line superclass >>= bindClass name methods) m := by
  change Effect.andThen _ _ m = Effect.andThen _ _ m
  unfold Effect.andThen
  cases hfound : superclassOf name.line superclass m with
  | failed => rfl
  | outOfFuel => rfl
  | done found after =>
    obtain rfl := superclassOf_done hfound
    have hdefined :
        ((after.store.define after.current name.text .nil).binding? after.current name.text).isSome := by
      rw [Store.define_binding_self h, if_pos rfl]
      rfl
    have hopened (bindings : Table Value) :
        (((after.store.define after.current name.text .nil).newScope bindings (some after.current)).2.binding?
          after.current name.text).isSome := by
      rw [Store.newScope_binding, Store.define_size, if_neg (Nat.ne_of_lt h)]
      exact hdefined
    cases found with
    | none =>
      have hbinder : (after.store.define after.current name.text .nil).newIdentity.2.binder? after.current
        name.text = some after.current := binder_here hdefined
      simp only [bindClass, methodScope, methodsIn_eq, defineHere, bind, Effect.andThen, Effect.currentScope,
        Effect.read, Effect.modifyStore, Effect.make, Effect.ofOption, Effect.ofExcept, pure, Effect.yield,
        hbinder]
    | some c =>
      have hbinder : ((after.store.define after.current name.text .nil).newScope [("super", .classObject c)]
        (some after.current)).2.newIdentity.2.binder? after.current name.text = some after.current :=
          binder_here (hopened _)
      simp only [bindClass, methodScope, methodsIn_eq, defineHere, bind, Effect.andThen, Effect.currentScope,
        Effect.read, Effect.modifyStore, Effect.make, Effect.ofOption, Effect.ofExcept, pure, Effect.yield,
        hbinder]

theorem defineClass_match (hn : w[scope]? = some n) {name : Name} {superclass : Option Reference}
    {methods methods' : List FunctionDecl} (hl : ρ.Leaves n name)
    (hnew : ∀ target ∈ superclass, ρ.Admits n (.reference target))
    (hm : MethodsRenamed ρ (n.inClass superclass).inner methods methods') :
    EffectsMatch ρ w scope (fun _ _ _ => True) (defineClass name superclass methods)
      (defineClass name (renameSuperclass ρ n superclass) methods') := by
  intro m m' hm'
  have hlt := World.lt_length hn
  have hcurrent : m.current < m.store.scopes.size := by
    rw [hm'.current, hm'.store.size]
    exact hlt
  have hcurrent' : m'.current < m'.store.scopes.size := by
    rw [hm'.current', hm'.store.size']
    exact hlt
  rw [defineClass_eq name superclass methods hcurrent, defineClass_eq name _ methods' hcurrent']
  refine (superclassOf_match hn name.line hnew).bind ?_ m m' hm'
  rintro later hlater c c' ⟨hc, hsome⟩
  exact bindClass_match (hlater.nesting hn) hl hc hsome hm

/-! ## The functions of the language -/

theorem argumentCount_match {α : Type} {R : World → α → α → Prop} {vs vs' : List Value} (expected line : Nat)
    (hvs : ArgumentsMatch ρ w vs vs') :
    EffectsMatch ρ w scope R (Effect.fail line (.argumentCount expected vs.length))
      (Effect.fail line (.argumentCount expected vs'.length)) := by
  rw [hvs.length_eq]
  exact .fail _ _

theorem textOf_match (fuel : Nat) {v v' : Value} (hv : ValuesMatch ρ w v v') :
    EffectsMatch ρ w scope (fun _ text text' => text' = text) (Effect.textOf fuel v)
      (Effect.textOf fuel v') := by
  intro m m' hm
  unfold Effect.textOf
  rw [hm.store.text fuel hv]
  cases m.store.text? fuel v with
  | none => exact .outOfFuel (List.prefix_refl w) hm
  | some text => exact .done (List.prefix_refl w) rfl hm

theorem write_match (line : Nat) (text : String) :
    EffectsMatch ρ w scope (fun _ a a' => a' = a) (Effect.write line text) (Effect.write line text) :=
  .onConsole line _

theorem readLine_match (line : Nat) :
    EffectsMatch ρ w scope (ValuesMatch ρ) (Effect.readLine line) (Effect.readLine line) := by
  refine (EffectsMatch.onConsole line Console.readLine).bind ?_
  rintro later hl _ text rfl
  cases text with
  | none => exact .yield valuesMatch_nil
  | some text => exact .yield (.codeFree trivial)

theorem readClock_match :
    EffectsMatch ρ w scope (ValuesMatch ρ) Effect.readClock Effect.readClock := by
  intro m m' hm
  unfold Effect.readClock
  rw [hm.clock]
  exact .done (List.prefix_refl w) (.codeFree trivial) { hm with clock := rfl }

theorem builtin_match (builtin : Builtin) (fuel line : Nat) {vs vs' : List Value}
    (hvs : ArgumentsMatch ρ w vs vs') :
    EffectsMatch ρ w scope (ValuesMatch ρ) (builtin.call fuel vs line) (builtin.call fuel vs' line) := by
  have hcount := @argumentCount_match ρ w scope Value (ValuesMatch ρ) vs vs' builtin.arity line hvs
  rcases hvs with _ | ⟨hv, _ | ⟨hu, hrest⟩⟩
  · cases builtin with
    | clock => exact readClock_match
    | list =>
      have hempty : ArgumentsMatch ρ w [] [] := .nil
      refine (newList_match hempty).bind ?_
      rintro later hl _ id rfl
      exact .yield (.codeFree trivial)
    | _ => exact hcount
  · cases builtin with
    | print =>
      refine (textOf_match fuel hv).bind ?_
      rintro later hl _ text rfl
      exact (write_match line _).bind fun _ _ _ _ _ => .yield valuesMatch_nil
    | readline =>
      refine (textOf_match fuel hv).bind ?_
      rintro later hl _ text rfl
      exact (write_match line _).bind fun _ _ _ _ _ => readLine_match line
    | int =>
      unfold Builtin.call
      dsimp only
      rw [hv.toInteger]
      exact .ofExcept line (.refl fun _ h => .codeFree (Value.toInteger_codeFree h))
    | float =>
      unfold Builtin.call
      dsimp only
      rw [hv.toFloating]
      exact .ofExcept line (.refl fun _ h => .codeFree (Value.toFloating_codeFree h))
    | str =>
      refine (textOf_match fuel hv).bind ?_
      rintro later hl _ text rfl
      exact .yield (.codeFree trivial)
    | type =>
      unfold Builtin.call
      dsimp only
      rw [hv.typeText]
      exact .yield (.codeFree trivial)
    | _ => exact hcount
  · cases builtin <;> exact hcount

/-! ## Expressions and statements -/

theorem parameterTable_match {params : List Name} {vs vs' : List Value} (hvs : ArgumentsMatch ρ w vs vs') :
    BindingsMatch ρ w n (parameterTable params vs) (parameterTable (renameNames ρ n params) vs') := by
  unfold parameterTable renameNames
  suffices ∀ t t' : Table Value, BindingsMatch ρ w n t t' →
      BindingsMatch ρ w n
        ((params.zip vs).foldl (fun table pair => Table.put pair.1.text pair.2 table) t)
        (((params.map (Name.rename ρ n)).zip vs').foldl
          (fun table pair => Table.put pair.1.text pair.2 table) t') from
    this [] [] (bindingsMatch_nil n)
  induction hvs generalizing params with
  | nil => simp
  | cons hv _ ih =>
    cases params with
    | nil => exact fun _ _ h => h
    | cons param rest =>
      intro t t' h
      refine ih _ _ ?_
      dsimp only
      rw [param.rename_text]
      exact h.put param.text hv

/-! ## Declarations and bodies -/

theorem declare_match (hn : w[scope]? = some n) (name : Name) {v v' : Value} (hv : ValuesMatch ρ w v v') :
    EffectsMatch ρ w scope (fun _ _ _ => True) (defineHere name.text v)
      (defineHere (name.rename ρ n).text v') := by
  rw [name.rename_text]
  exact defineHere_match hn name.text hv

theorem defineFunction_match (hn : w[scope]? = some n) {f f' : FunctionDecl} (hl : ρ.Leaves n f.name)
    (hf : FunctionRenamed ρ n f f') :
    EffectsMatch ρ w scope (fun _ _ _ => True) (Operations.plain.defineFunction f)
      (Operations.plain.defineFunction f') := by
  have hname : (f.name.rename ρ n).text = f'.name.text := by
    rw [Name.rename_of_leaves hl, hf.declared_name]
  refine EffectsMatch.currentScope.bind ?_
  rintro later hlater _ current ⟨rfl, rfl⟩
  have hn := hlater.nesting hn
  have hclosure : ClosuresMatch ρ later ⟨f, current, false⟩ ⟨f', current, false⟩ := ⟨rfl, rfl, n, hn, hf⟩
  refine (newFunction_match hclosure).bind fun last hlast v v' hv => ?_
  have hdefine := declare_match (hlast.nesting hn) f.name hv
  rwa [hname] at hdefine

/-- The second expression is the first one with names exchanged, as the scope tells where it is evaluated. -/
def ExprsMatch (ρ : Renaming) (w : World) (scope : ScopeId) (e e' : Expr) : Prop :=
  ∃ n, w[scope]? = some n ∧ ρ.Admits n e ∧ e' = e.rename ρ n

def StmtsMatch (ρ : Renaming) (w : World) (scope : ScopeId) (s s' : Stmt) : Prop :=
  ∃ n, w[scope]? = some n ∧ StmtRenamed ρ n s s'

theorem bodyMatches (hn : w[scope]? = some n) {body body' : List Stmt} (h : BodyRenamed ρ n body body') :
    List.Forall₂ (StmtsMatch ρ w scope) body body' := by
  induction body generalizing body' with
  | nil =>
    cases h
    exact .nil
  | cons s rest ih =>
    cases h with
    | cons hs hrest => exact .cons ⟨n, hn, hs⟩ (ih hrest)

theorem inBlock_match (hn : w[scope]? = some n) {body body' : List Stmt}
    (hs : StmtRenamed ρ n (.block body) (.block body')) {run run' : Effect Flow}
    (hrun : ∀ later inner, List.Forall₂ (StmtsMatch ρ later inner) body body' →
      EffectsMatch ρ later inner (fun w => Flow.Alike (ValuesMatch ρ w)) run run') :
    EffectsMatch ρ w scope (fun w => Flow.Alike (ValuesMatch ρ w)) (Operations.plain.inBlock body run)
      (Operations.plain.inBlock body' run') := by
  cases hs with
  | block henters hbody =>
    refine EffectsMatch.currentScope.bind ?_
    rintro later hl _ _ ⟨rfl, rfl⟩
    refine (EffectsMatch.newScope (hl.nesting hn) henters (bindingsMatch_nil _)).bind ?_
    rintro last hlast _ opened ⟨rfl, hopened⟩
    exact (hrun last opened (bodyMatches hopened hbody)).within

theorem inCall_match (hρ : ρ.Spares) {c c' : Closure} {vs vs' : List Value} (hc : ClosuresMatch ρ w c c')
    (hvs : ArgumentsMatch ρ w vs vs') {run run' : Effect Flow}
    (hrun : ∀ later inner, List.Forall₂ (StmtsMatch ρ later inner) c.declaration.body c'.declaration.body →
      EffectsMatch ρ later inner (fun w => Flow.Alike (ValuesMatch ρ w)) run run') :
    EffectsMatch ρ w scope (ValuesMatch ρ) (Operations.plain.inCall c vs run)
      (Operations.plain.inCall c' vs' run') := by
  obtain ⟨f, outer, isInitializer⟩ := c
  obtain ⟨f', outer', isInitializer'⟩ := c'
  obtain ⟨n, hn, hcode⟩ := hc.code
  have hn : w[outer]? = some n := hn
  have hscope : outer' = outer := hc.scope
  have hinitializer : isInitializer' = isInitializer := hc.isInitializer
  subst hscope hinitializer
  cases hcode with
  | @intro _ inner name params body body' henters hbody =>
    refine (EffectsMatch.newScope hn henters (parameterTable_match hvs)).bind ?_
    rintro later hl _ opened ⟨rfl, hopened⟩
    refine (hrun later opened (bodyMatches hopened hbody)).within.bind fun last hlast flow flow' hf => ?_
    have hn := hlast.nesting (hl.nesting hn)
    cases isInitializer' with
    | true =>
      have hread : EffectsMatch ρ last scope (fun w => Option.Rel (ValuesMatch ρ w))
          (Effect.read fun m => m.store.lookupAt? outer' 0 "this")
          (Effect.read fun m => m.store.lookupAt? outer' 0 "this") := by
        refine .read fun m m' hm => ?_
        have hthis : ρ.used n (some 0) "this" = "this" := used_of_fixed (hρ .thisWord)
        obtain ⟨hsame, hkey⟩ := hm.store.binderAt 0 "this" hn
        rw [hthis] at hsame hkey
        unfold Store.lookupAt?
        rw [hsame]
        cases hholder : m.store.binderAt? outer' 0 "this" with
        | none => exact .none
        | some holder =>
          obtain ⟨k, hk, hused⟩ := hkey holder hholder
          have hb := hm.store.bindings holder k hk "this"
          rwa [hused] at hb
      exact hread.bind fun _ _ found found' hfound => .ofOption name.line .same hfound
    | false =>
      cases hf with
      | normal => exact .yield valuesMatch_nil
      | returned hv => exact .yield hv

/-! ## Whole runs -/

theorem exprsMatch {es : List Expr} (hn : w[scope]? = some n) (h : ∀ e ∈ es, ρ.Admits n e) :
    List.Forall₂ (ExprsMatch ρ w scope) es (renameItems ρ n es) := by
  induction es with
  | nil => exact .nil
  | cons e rest ih =>
    rw [List.forall_mem_cons] at h
    exact .cons ⟨n, hn, h.1, rfl⟩ (ih h.2)

theorem optionalMatches {e : Option Expr} (hn : w[scope]? = some n) (h : ∀ part ∈ e, ρ.Admits n part) :
    Option.Rel (ExprsMatch ρ w scope) e (renameOptional ρ n e) := by
  cases e with
  | none => exact .none
  | some e => exact .some ⟨n, hn, h e rfl, rfl⟩

theorem ExprsMatch.alike {e e' : Expr} (h : ExprsMatch ρ w scope e e') :
    e.Alike Eq Eq (ExprsMatch ρ w scope) e' := by
  obtain ⟨n, hn, hnew, rfl⟩ := h
  have hpart {part : Expr} (hp : part ∈ e.parts) : ExprsMatch ρ w scope part (part.rename ρ n) :=
    ⟨n, hn, hnew.part hp, rfl⟩
  have hparts {es : List Expr} (hes : es ⊆ e.parts) :
      List.Forall₂ (ExprsMatch ρ w scope) es (renameItems ρ n es) :=
    exprsMatch hn fun part hp => hnew.part (hes hp)
  cases e with
  | literal value => exact .literal value
  | grouping inner => exact .grouping (hpart List.mem_cons_self)
  | unary operator line right => exact .unary operator rfl (hpart List.mem_cons_self)
  | binary left operator line right =>
    exact .binary operator (hpart List.mem_cons_self) rfl (hpart (by simp [Expr.parts]))
  | logical left operator right =>
    exact .logical operator (hpart List.mem_cons_self) (hpart (by simp [Expr.parts]))
  | reference target => exact .reference target _
  | assign target operator value => exact .assign target _ operator (hpart List.mem_cons_self)
  | call callee style line arguments =>
    exact .call style style (hpart List.mem_cons_self) rfl (hparts (List.subset_cons_self ..))
  | list line elements => exact .list line line (hparts (List.Subset.refl _))
  | get object name => exact .get (hpart List.mem_cons_self) rfl
  | set object name operator value =>
    exact .set operator (hpart List.mem_cons_self) rfl (hpart (by simp [Expr.parts]))
  | setElement object arguments operator line value =>
    have harguments : arguments ⊆ (Expr.setElement object arguments operator line value).parts := fun e he => by
      simp [Expr.parts, he]
    exact .setElement operator (hpart List.mem_cons_self) (hparts harguments) rfl (hpart (by simp [Expr.parts]))
  | receiver target => exact .receiver target target
  | inherited target method => exact .inherited target target method method

theorem StmtsMatch.alike {s s' : Stmt} (h : StmtsMatch ρ w scope s s') :
    s.Alike (ExprsMatch ρ w scope) (StmtsMatch ρ w scope) s' := by
  obtain ⟨n, hn, hs⟩ := h
  cases hs with
  | expression hnew => exact .expression ⟨n, hn, hnew, rfl⟩
  | declare hnew => exact .declare _ _ (optionalMatches hn hnew)
  | block henters hbody => exact .block _ _
  | branch hnew hthen helse =>
    refine .branch ⟨n, hn, hnew, rfl⟩ ⟨n, hn, hthen⟩ ?_
    cases helse with
    | none => exact .none
    | some helse => exact .some ⟨n, hn, helse⟩
  | loop hnew hbody => exact .loop ⟨n, hn, hnew, rfl⟩ ⟨n, hn, hbody⟩
  | function hl hf => exact .function _ _
  | giveBack hnew => exact .giveBack _ _ (optionalMatches hn hnew)
  | declareClass hl hnew hm => exact .declareClass _ _ _ _ _ _

theorem ValuesMatch.alike {v v' : Value} (h : ValuesMatch ρ w v v') :
    v.Alike (ClosuresMatch ρ w) (ClassesMatch ρ w) v' := by
  cases h with
  | function hc => exact .function _ _ hc
  | classObject hc => exact .classObject hc
  | instanceOf hc => exact .instanceOf _ _ _ _
  | codeFree hf =>
    cases v with
    | function | classObject | instanceOf => cases hf
    | _ => constructor

/-- What has names exchanged is alike, in a world and in a scope of it. -/
def Renaming.likeness (ρ : Renaming) : Likeness where
  World := World × ScopeId
  Later here there := here.1.Grows there.1 ∧ there.2 = here.2
  value here := ValuesMatch ρ here.1
  closure here := ClosuresMatch ρ here.1
  class_ here := ClassesMatch ρ here.1
  expr here := ExprsMatch ρ here.1 here.2
  stmt here := StmtsMatch ρ here.1 here.2
  line := Eq
  name := Eq
  value_later hl h := h.grow hl.1
  closure_later hl h := ClosuresMatch.grow hl.1 h
  class_later hl h := h.grow hl.1
  expr_later := by
    rintro ⟨w, scope⟩ ⟨later, _⟩ e e' ⟨hl, rfl⟩ ⟨n, hn, h⟩
    exact ⟨n, hl.nesting hn, h⟩
  stmt_later := by
    rintro ⟨w, scope⟩ ⟨later, _⟩ s s' ⟨hl, rfl⟩ ⟨n, hn, h⟩
    exact ⟨n, hl.nesting hn, h⟩
  value_alike := ValuesMatch.alike
  expr_alike := ExprsMatch.alike
  stmt_alike := StmtsMatch.alike
  closure_arity h := h.arity
  class_arity h := h.arity
  name_line := @Name.line_eq
  literal _ value := .codeFree value.value_codeFree

/-- The operations match themselves on code in which names are exchanged. -/
def Renaming.simulation (hρ : ρ.Spares) : Simulation ρ.likeness .plain .plain where
  Related here R := EffectsMatch ρ here.1 here.2 fun w => R (w, here.2)
  fuels := Eq
  pure h := .yield h
  bind h hn := h.bind fun later hl a a' => hn (later, _) ⟨hl, rfl⟩ a a'
  holding _ _ h := h
  entering _ _ _ _ h := h
  fail fault hl := hl ▸ .fail _ fault
  unary operator hl hv := hl ▸ unary_match operator _ hv
  binary operator hl hv hu := hl ▸ binary_match operator _ hv hu
  reference := by
    rintro here target _ ⟨n, hn, hnew, ⟨⟩⟩
    exact readReference_match hn hnew
  receiver := by
    rintro here target _ ⟨n, hn, hnew, ⟨⟩⟩
    refine (depthOf_match target.id).bind ?_
    rintro later hl _ _ ⟨rfl, rfl⟩
    exact readName_match (hl.nesting hn) (receiver_match hρ hnew _)
  inherited := by
    rintro here target _ method _ ⟨n, hn, hnew, ⟨⟩⟩
    exact inheritedMethod_match hρ hn target method
  assignName := by
    rintro here target _ operator e _ _ _ ⟨n, hn, hnew, ⟨⟩⟩ hv
    exact assignName_match hn hnew hv
  property := by
    rintro here _ _ name _ hv rfl
    exact property_match name hv
  assignField := by
    rintro here id id' c c' name _ _ _ operator ho rfl hv
    cases ho with
    | instanceOf hc => exact assignField_match id name operator hc hv
    | codeFree hf => cases hf
  newList hvs := by
    refine (newList_match hvs).bind ?_
    rintro later hl _ id rfl
    exact .yield (.codeFree trivial)
  itemOf := by
    rintro here list _ _ _ line _ ho hv rfl
    cases ho
    exact itemOf_match list line hv
  assignItem := by
    rintro here list _ _ _ _ _ line _ operator ho hi rfl hv
    cases ho
    exact assignItem_match list operator line hi hv
  builtin := by
    rintro here fuel _ line _ _ _ builtin rfl hvs rfl
    exact builtin_match builtin fuel line hvs
  listMethod := by
    rintro here list _ method _ _ line _ ho hvs rfl
    cases ho
    exact .onStore line fun s s' hs => hs.callListMethod list method hvs
  newInstance := newInstance_match
  initializer hc hv := optionRel_imp (fun _ _ hm => bindReceiver_match hm hv) (hc.method initializerName)
  inCall hc hvs hrun := inCall_match hρ hc hvs fun later inner => hrun (later, inner)
  inBlock := by
    rintro here body body' run run' ⟨n, hn, hs⟩ hrun
    exact inBlock_match hn hs fun later inner => hrun (later, inner)
  declare := by
    rintro here name _ _ _ _ _ ⟨n, hn, ⟨hnew⟩⟩ hv
    exact declare_match hn name hv
  defineFunction := by
    rintro here f f' ⟨n, hn, hs⟩
    cases hs with
    | function hl hf => exact defineFunction_match hn hl hf
  defineClass := by
    rintro here name _ superclass _ methods _ ⟨n, hn, hs⟩
    cases hs with
    | declareClass hl hnew hm => exact defineClass_match hn hl hnew hm

/-- A program and the renamed one are run in the same way. -/
theorem runProgram_match (hρ : ρ.Spares) (fuel : Nat) {program program' : List Stmt}
    (h : BodyRenamed ρ n program program') (hn : w[scope]? = some n) :
    EffectsMatch ρ w scope (fun _ _ _ => True) (runProgram fuel program) (runProgram fuel program') := by
  have hagree := (Renaming.simulation hρ).agree_evaluator_same rfl .exhausted fuel
  rw [Evaluator.evaluator_plain] at hagree
  have hbody : List.Forall₂ (ρ.likeness.stmt (w, scope)) program program' := bodyMatches hn h
  have hrun := hagree.runProgram hbody
  rwa [Evaluator.runProgram_withFuel, Evaluator.runProgram_withFuel] at hrun

end LoxLang
