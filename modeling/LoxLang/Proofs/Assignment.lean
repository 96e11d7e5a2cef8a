import LoxLang.Proofs.Renumber.Extension

/-!
# Compound assignments

A compound assignment evaluates its right side before it looks at the old value; written out as a plain
assignment, the old value comes first, and the operands in front of the operator are evaluated twice. If
they leave nothing behind but entries that no value refers to, this makes no difference: both assignments
store the same value, or they end in the same fault.
-/

namespace LoxLang

/-! ## Ends -/

/-- The value or the fault that an effect ends in. -/
def Outcome.result? {α : Type} : Outcome α → Option (Except Fault α)
  | done a _ => some (.ok a)
  | failed e _ => some (.error e.fault)
  | outOfFuel _ => none

/-- Both effects come to an end with the same value or the same fault, and in the same state. The state is
made up of the first entries: neither the value nor any of these refers to a later one. -/
structure SameEnd (x : Extent) (o o' : Outcome Value) : Prop where
  ended : o.result? ≠ none
  result : o'.result? = o.result?
  within : ∀ v, o.result? = some (.ok v) → v.Within x
  state : o'.machine.first x = o.machine.first x
  closed : (o.machine.first x).Sound

/-- The expressions have one value, and they are evaluated without any change to the machine. What they may
leave behind is further entries, such as the scopes of calls, that nothing in the machine refers to. -/
def Quiet (m : Machine) (es : List Expr) : Prop :=
  ∃ fuel v r, (∀ e ∈ es, evaluate fuel e m = .done v r) ∧ r.Extends m

/-- The references stand for the same place: they have one name, and one noted depth if it is not global. -/
structure SamePlace (m : Machine) (target other : Reference) : Prop where
  name : other.name.text = target.name.text
  depth : m.depths[other.id]? = m.depths[target.id]?

/-- The second expression is the first one, a compound assignment, written out. -/
inductive WrittenOut (m : Machine) (operator : BinaryOperator) : Expr → Expr → Prop
  | name {target outer inner : Reference} {line : Nat} {e e' : Expr} : SamePlace m target outer →
      SamePlace m target inner → Quiet m [e, e'] →
      WrittenOut m operator (.assign target (.compound operator) e)
        (.assign outer .plain (.binary (.reference inner) operator line e'))
  | field {name outer inner : Name} {line : Nat} {o o' o'' e e' : Expr} : outer.text = name.text →
      inner.text = name.text → Quiet m [o, o', o''] → Quiet m [e, e'] →
      WrittenOut m operator (.set o name (.compound operator) e)
        (.set o' outer .plain (.binary (.get o'' inner) operator line e'))
  | element {style : CallStyle} {line outer inner line' : Nat} {xs xs' xs'' i i' i'' e e' : Expr} :
      Quiet m [xs, xs', xs''] → Quiet m [i, i', i''] → Quiet m [e, e'] →
      WrittenOut m operator (.setElement xs [i] (.compound operator) line e)
        (.setElement xs' [i'] .plain outer
          (.binary (.call xs'' style inner [i'']) operator line' e'))

/-! ## Effects that add entries -/

theorem Effect.ofExcept_result {α : Type} (line : Nat) (result : Except Fault α) (m : Machine) :
    (Effect.ofExcept line result m).result? = some result := by
  cases result <;> rfl

/-- An effect on the machine that comes to this end changes nothing, but for further entries. -/
structure Adds {α : Type} (m : Machine) (o : Outcome α) : Prop where
  ended : o.result? ≠ none
  extends_ : o.machine.Extends m

section Adds
variable {α β : Type} {m n : Machine}

theorem adds_done (h : n.Extends m) (a : α) : Adds m (.done a n) := ⟨Option.some_ne_none _, h⟩

theorem adds_failed (h : n.Extends m) (e : RuntimeError) : Adds m (.failed e n : Outcome α) :=
  ⟨Option.some_ne_none _, h⟩

theorem Adds.bind {effect : Effect α} {next : α → Effect β} (h : Adds m (effect m))
    (hn : ∀ a n, Adds n (next a n)) : Adds m ((effect >>= next) m) := by
  cases ho : effect m with
  | done a n =>
    rw [ho] at h
    rw [Effect.bind_done ho]
    exact ⟨(hn a n).ended, (hn a n).extends_.trans h.extends_⟩
  | failed e n =>
    rw [ho] at h
    rw [Effect.bind_failed ho]
    exact ⟨Option.some_ne_none _, h.extends_⟩
  | outOfFuel n =>
    rw [ho] at h
    exact absurd rfl h.ended

theorem adds_read (find : Machine → α) : Adds m (Effect.read find m) := adds_done (.refl m) _

theorem adds_ofExcept (line : Nat) (result : Except Fault α) : Adds m (Effect.ofExcept line result m) := by
  cases result with
  | ok a => exact adds_done (.refl m) a
  | error fault => exact adds_failed (.refl m) _

theorem adds_readName (depth : Option Nat) (name : Name) : Adds m (readName depth name m) :=
  adds_ofExcept _ _

theorem adds_itemOf (list : ListId) (index : Value) (line : Nat) : Adds m (itemOf list index line m) :=
  adds_ofExcept _ _

theorem adds_boundMethod (method : Closure) (receiver : Value) : Adds m (boundMethod method receiver m) :=
  adds_done (.changed ((Store.newIdentity_extends _).trans (Store.newScope_extends _ _ _))) _

theorem adds_instanceProperty (id : InstanceId) (c : ClassObject) (name : Name) :
    Adds m (instanceProperty id c name m) := by
  refine (adds_read _).bind fun field n => ?_
  cases field with
  | some value => exact adds_done (.refl n) value
  | none =>
    dsimp only
    cases c.method? name.text with
    | some method => exact adds_boundMethod method _
    | none => exact adds_failed (.refl n) _

end Adds

/-! ## Old values -/

/-- What an operator that does not compare references can tell of the value or the fault. -/
def Outcome.bare? (o : Outcome Value) : Option (Except Fault Value) := o.result?.map (Except.map Value.bare)

theorem Shadows.bare {g : Gap} {m : Machine} {o o' : Outcome Value} (h : Shadows g m (Value.Beside g) o o')
    (hend : o.result? ≠ none) : o'.bare? = o.bare? := by
  cases h with
  | done _ _ hv =>
    rw [hv.eq]
    exact congrArg (fun v => some (Except.ok v)) (Value.bare_renumber g _)
  | failed => rfl
  | outOfFuel => exact absurd rfl hend

/-- Two ways to an old value, which add nothing but entries: an operator cannot tell what they find, or they
end in the same fault. -/
inductive Reads (m : Machine) : Outcome Value → Outcome Value → Prop
  | done {v v' : Value} {n n' : Machine} : v'.bare = v.bare → n.Extends m → n'.Extends m →
      Reads m (.done v n) (.done v' n')
  | failed {fault : Fault} {line line' : Nat} {n n' : Machine} : n.Extends m → n'.Extends m →
      Reads m (.failed ⟨fault, line⟩ n) (.failed ⟨fault, line'⟩ n')

theorem reads_of_bare {m n n' : Machine} {o o' : Outcome Value} (h : o'.bare? = o.bare?)
    (ho : Adds n o) (hn : n.Extends m) (ho' : Adds n' o') (hn' : n'.Extends m) : Reads m o o' := by
  have hext := ho.extends_.trans hn
  have hext' := ho'.extends_.trans hn'
  cases o with
  | outOfFuel => exact absurd rfl ho.ended
  | done v r =>
    cases o' with
    | outOfFuel => exact absurd rfl ho'.ended
    | done v' r' => exact .done (Except.ok.inj (Option.some.inj h)) hext hext'
    | failed e r' => cases h
  | failed e r =>
    cases o' with
    | outOfFuel => exact absurd rfl ho'.ended
    | done v' r' => cases h
    | failed e' r' =>
      obtain ⟨fault, line⟩ := e
      obtain ⟨fault', line'⟩ := e'
      cases Except.error.inj (Option.some.inj h)
      exact .failed hext hext'

section
variable {m n r r' : Machine}

/-- The line to blame is no part of the result. -/
theorem readName_line (depth : Option Nat) {target inner : Name} (hname : inner.text = target.text)
    (m : Machine) : (readName depth inner m).result? = (readName depth target m).result? := by
  unfold readName
  rw [Effect.read_bind, Effect.read_bind, hname]
  unfold Effect.ofOption
  rw [Effect.ofExcept_result, Effect.ofExcept_result]

theorem instanceProperty_line (id : InstanceId) (c : ClassObject) {target inner : Name}
    (hname : inner.text = target.text) (m : Machine) :
    (instanceProperty id c inner m).result? = (instanceProperty id c target m).result? := by
  unfold instanceProperty
  rw [Effect.read_bind, Effect.read_bind, hname]
  cases m.store.field? id target.text with
  | some value => rfl
  | none =>
    dsimp only
    cases c.method? target.text <;> rfl

theorem itemOf_result (list : ListId) (index : Value) (line : Nat) (m : Machine) :
    (itemOf list index line m).result? = some (m.store.itemAt list index) := by
  unfold itemOf
  rw [Effect.read_bind, Effect.ofExcept_result]

/-- A name in an extension of a machine, and in the machine itself. -/
theorem readName_reads (hm : m.Sound) (h : n.Extends m) (depth : Option Nat) {target inner : Name}
    (hname : inner.text = target.text) : Reads m (readName depth target n) (readName depth inner m) := by
  have hlater := (shadows_readName (h.beside hm) depth target).bare (adds_readName depth target).ended
  have hline : (readName depth inner m).bare? = (readName depth target m).bare? :=
    congrArg (Option.map (Except.map Value.bare)) (readName_line depth hname m)
  exact reads_of_bare (hline.trans hlater.symm) (adds_readName depth target) h (adds_readName depth inner)
    (.refl m)

/-- A property of an instance in an extension of a machine, and of its copy in another one. -/
theorem instanceProperty_reads {g : Gap} {id : InstanceId} {c : ClassObject} (hm : m.Sound)
    (hw : (Value.instanceOf id c).Within m.extent) (hn : n.Extends m) (hb : m.Beside g r) (hr : r.Extends m)
    {target inner : Name} (hname : inner.text = target.text) :
    Reads m (instanceProperty id c target n)
      (instanceProperty (g.instance_ id) (c.renumber g) inner r) := by
  have hfixed : (Value.instanceOf id c).Beside (.between m.store n.store) m.extent (.instanceOf id c) :=
    ⟨hw, (Value.renumber_of_within (Gap.fixes_base _) hw).symm⟩
  have hleft := (shadows_instanceProperty (hn.beside hm) target hfixed).bare
    (adds_instanceProperty id c target).ended
  have hright := (shadows_instanceProperty hb inner ⟨hw, rfl⟩).bare
    (adds_instanceProperty id c inner).ended
  have hline : (instanceProperty id c inner m).bare? = (instanceProperty id c target m).bare? :=
    congrArg (Option.map (Except.map Value.bare)) (instanceProperty_line id c hname m)
  exact reads_of_bare (hright.trans (hline.trans hleft.symm)) (adds_instanceProperty id c target) hn
    (adds_instanceProperty _ _ inner) hr

theorem itemAt_renumber (g : Gap) (s : Store) (list : ListId) (index : Value) :
    s.itemAt list (index.renumber g) = s.itemAt list index := by
  unfold Store.itemAt
  dsimp only
  rw [position_renumber]

theorem Store.Extends.items {s s' : Store} (h : s'.Extends s) {list : ListId} (hl : list < s.lists.size) :
    s'.items list = s.items list := by
  unfold Store.items
  rw [take_eq_iff.1 h.lists list hl]

theorem Store.Extends.itemAt {s s' : Store} (h : s'.Extends s) {list : ListId} (hl : list < s.lists.size)
    (index : Value) : s'.itemAt list index = s.itemAt list index := by
  unfold Store.itemAt
  rw [h.items hl]

/-- An item of a list in an extension of a machine, and of its copy in an extension of another one. The
index may have got other numbers as well. -/
theorem itemOf_reads {g g' g'' : Gap} {list : ListId} {q : Machine} (hl : list < r.store.lists.size)
    (hn : n.Extends m) (hm : m.Extends r) (hb : r.Beside g r') (hq : q.Extends r') (hq' : q.Extends m)
    (index : Value) (line inner : Nat) :
    Reads m (itemOf list (index.renumber g') line n) (itemOf (g.list list) (index.renumber g'') inner q) := by
  have hl' : g.list list < r'.store.lists.size := by
    have hsize := hb.store.lists.size
    rw [hsize]
    exact (skip_lt hb.store.lists.base_le).2 hl
  have hleft : n.store.itemAt list (index.renumber g') = r.store.itemAt list index := by
    rw [itemAt_renumber, (hn.trans hm).store.itemAt hl]
  have hright : q.store.itemAt (g.list list) (index.renumber g'') =
      r'.store.itemAt (g.list list) (index.renumber g) := by
    rw [itemAt_renumber, hq.store.itemAt hl', itemAt_renumber]
  have hcopy := hb.store.itemAt list index
  refine reads_of_bare ?_ (adds_itemOf list _ line) hn (adds_itemOf _ _ inner) hq'
  unfold Outcome.bare?
  rw [itemOf_result, itemOf_result, hleft, hright]
  generalize r.store.itemAt list index = result, r'.store.itemAt _ _ = result' at hcopy
  cases hcopy with
  | ok hv =>
    rw [hv.eq]
    exact congrArg (fun v => some (Except.ok v)) (Value.bare_renumber g _)
  | error fault => rfl

end

/-! ## Combined values -/

/-- Both ways compute the same value, or end in the same fault. -/
inductive Computes (m : Machine) : Outcome Value → Outcome Value → Prop
  | done {v : Value} {n n' : Machine} : v.Simple → n.Extends m → n'.Extends m →
      Computes m (.done v n) (.done v n')
  | failed {fault : Fault} {line line' : Nat} {n n' : Machine} : n.Extends m → n'.Extends m →
      Computes m (.failed ⟨fault, line⟩ n) (.failed ⟨fault, line'⟩ n')

/-- The operator belongs to a compound assignment. -/
def BinaryOperator.Compound (operator : BinaryOperator) : Prop :=
  ∃ token, AssignOperator.ofToken? token = some (.compound operator)

theorem BinaryOperator.Compound.apply_bare {operator : BinaryOperator} (h : operator.Compound)
    (left right : Value) : operator.apply left.bare right.bare = operator.apply left right := by
  obtain ⟨token, ht⟩ := h
  unfold AssignOperator.ofToken? at ht
  split at ht <;> cases ht <;> exact BinaryOperator.apply_bare (by decide) (by decide) left right

/-- The old value may be read before the operand is evaluated or after that. -/
theorem combine_computes {operator : BinaryOperator} (hop : operator.Compound) {m n : Machine}
    {old left operand : Effect Value} {value v : Value} (line line' : Nat) (hreads : Reads m (old n) (left m))
    (hvalue : value.bare = v.bare) (hoperand : ∀ n', n'.Extends m →
      ∃ value' r, operand n' = .done value' r ∧ r.Extends n' ∧ value'.bare = v.bare) :
    Computes m (combine (.compound operator) line value old n)
      ((left >>= fun a => operand >>= fun b => Effect.ofExcept line' (operator.apply a b)) m) := by
  change Computes m ((old >>= fun a => Effect.ofExcept line (operator.apply a value)) n) _
  generalize hold : old n = o, hleft : left m = o' at hreads
  cases hreads with
  | failed h h' =>
    rw [Effect.bind_failed hold, Effect.bind_failed hleft]
    exact .failed h h'
  | @done a a' r r' hsame h h' =>
    obtain ⟨value', q, hrun, hq, hbare⟩ := hoperand r' h'
    rw [Effect.bind_done hold, Effect.bind_done hleft, Effect.bind_done hrun]
    have happly : operator.apply a' value' = operator.apply a value := by
      rw [← hop.apply_bare a' value', hsame, hbare, ← hvalue, hop.apply_bare]
    rw [happly]
    cases hresult : operator.apply a value with
    | ok v => exact .done (BinaryOperator.apply_simple hresult) h (hq.trans h')
    | error fault => exact .failed h (hq.trans h')

/-! ## Writing -/

section
variable {m : Machine}

theorem writeName_bound {depth : Option Nat} {name : Name} {holder : ScopeId}
    (h : m.holder? depth name.text = some holder) (value : Value) : writeName depth name value m =
      .done () { m with store := m.store.define holder name.text value } := by
  have hholder : holderOf depth name m = .done holder m := by
    unfold holderOf
    rw [Effect.read_bind, h]
    rfl
  exact Effect.bind_done hholder

theorem writeName_unbound {depth : Option Nat} {name : Name} (h : m.holder? depth name.text = none)
    (value : Value) : writeName depth name value m =
      .failed ⟨.undefinedVariable name.text, name.line⟩ m := by
  have hholder : holderOf depth name m = .failed ⟨.undefinedVariable name.text, name.line⟩ m := by
    unfold holderOf
    rw [Effect.read_bind, h]
    rfl
  exact Effect.bind_failed hholder

theorem Store.setItemAt_ok {s : Store} {list : ListId} {index : Value} {i : Nat}
    (h : position (s.items list).size index = .ok i) (value : Value) : s.setItemAt list index value =
      (.ok (), s.modifyList list fun items => items.setIfInBounds i value) := by
  unfold Store.setItemAt
  rw [h]

theorem Store.setItemAt_error {s : Store} {list : ListId} {index : Value} {fault : Fault}
    (h : position (s.items list).size index = .error fault) (value : Value) :
    s.setItemAt list index value = (.error fault, s) := by
  unfold Store.setItemAt
  rw [h]

theorem onStore_ok {α : Type} {operation : Store → Except Fault α × Store} {a : α} {s : Store}
    (h : operation m.store = (.ok a, s)) (line : Nat) :
    Effect.onStore line operation m = .done a { m with store := s } := by
  unfold Effect.onStore
  rw [h]

theorem onStore_error {α : Type} {operation : Store → Except Fault α × Store} {fault : Fault} {s : Store}
    (h : operation m.store = (.error fault, s)) (line : Nat) :
    Effect.onStore line operation m = .failed ⟨fault, line⟩ { m with store := s } := by
  unfold Effect.onStore
  rw [h]

end

section SameEnd
variable {m n n' : Machine} (hm : m.Sound)
include hm

theorem sameEnd_failed (h : n.Extends m) (h' : n'.Extends m) {o o' : Outcome Value} {fault : Fault}
    {line line' : Nat} (ho : o = .failed ⟨fault, line⟩ n) (ho' : o' = .failed ⟨fault, line'⟩ n') :
    SameEnd m.extent o o' := by
  have hfirst : n.first m.extent = m := h
  have hfirst' : n'.first m.extent = m := h'
  rw [ho, ho']
  constructor
  case ended => exact Option.some_ne_none _
  case result => rfl
  case within => exact fun v hv => nomatch hv
  case state => exact hfirst'.trans hfirst.symm
  case closed => exact hfirst.symm ▸ hm

/-- The same change of two extensions. -/
theorem sameEnd_overwritten (h : n.Extends m) (h' : n'.Extends m) {change : Store → Store}
    (hc : Overwrites change) {value : Value} (hv : value.Simple) :
    SameEnd m.extent (.done value { n with store := change n.store })
      (.done value { n' with store := change n'.store }) := by
  have hfirst := hc.first_machine h
  have hfirst' := hc.first_machine h'
  constructor
  case ended => exact Option.some_ne_none _
  case result => rfl
  case within =>
    intro v hresult
    cases hresult
    exact hv.within _
  case state => exact hfirst'.trans hfirst.symm
  case closed => exact hfirst.symm ▸ hc.sound hm

/-- What comes after two ways to compute a value. -/
theorem Computes.bind {r r' : Machine} {effect effect' : Effect Value} {next next' : Value → Effect Value}
    (h : Computes n (effect r) (effect' r')) (hn : n.Extends m)
    (hnext : ∀ v q q', v.Simple → q.Extends n → q'.Extends n →
      SameEnd m.extent (next v q) (next' v q')) :
    SameEnd m.extent ((effect >>= next) r) ((effect' >>= next') r') := by
  generalize ho : effect r = o, ho' : effect' r' = o' at h
  cases h with
  | done hv hq hq' =>
    rw [Effect.bind_done ho, Effect.bind_done ho']
    exact hnext _ _ _ hv hq hq'
  | failed hq hq' =>
    exact sameEnd_failed hm (hq.trans hn) (hq'.trans hn) (Effect.bind_failed ho) (Effect.bind_failed ho')

theorem Machine.Extends.holder? (h : n.Extends m) (depth : Option Nat) (name : String) :
    n.holder? depth name = m.holder? depth name := by
  rw [(h.beside hm).holder?]
  cases hholder : m.holder? depth name with
  | none => rfl
  | some holder => exact congrArg some (skip_of_lt (Store.lt_size_of_bound (holder_bound hholder)))

theorem sameEnd_writeName (h : n.Extends m) (h' : n'.Extends m) (depth : Option Nat) {target outer : Name}
    (hname : outer.text = target.text) {value : Value} (hv : value.Simple) :
    SameEnd m.extent ((writeName depth target value >>= fun _ => pure value) n)
      ((writeName depth outer value >>= fun _ => pure value) n') := by
  have hholder := h.holder? hm depth target.text
  have hholder' := h'.holder? hm depth outer.text
  cases hh : m.holder? depth target.text with
  | none =>
    rw [hh] at hholder
    rw [hname, hh] at hholder'
    have hleft := writeName_unbound hholder value
    have hright : writeName depth outer value n' = .failed ⟨.undefinedVariable target.text, outer.line⟩ n' :=
      hname ▸ writeName_unbound (hname ▸ hholder') value
    exact sameEnd_failed hm h h' (Effect.bind_failed hleft) (Effect.bind_failed hright)
  | some holder =>
    rw [hh] at hholder
    rw [hname, hh] at hholder'
    rw [Effect.bind_done (writeName_bound hholder value),
      Effect.bind_done (writeName_bound (hname ▸ hholder') value), hname]
    exact sameEnd_overwritten hm h h' (overwrites_define hv.within holder target.text) hv

theorem sameEnd_setField (h : n.Extends m) (h' : n'.Extends m) (object : InstanceId) {target outer : Name}
    (hname : outer.text = target.text) {value : Value} (hv : value.Simple) :
    SameEnd m.extent
      ((Effect.modifyStore (fun s => s.setField object target.text value) >>= fun _ => pure value) n)
      ((Effect.modifyStore (fun s => s.setField object outer.text value) >>= fun _ => pure value) n') := by
  rw [hname]
  exact sameEnd_overwritten hm h h' (overwrites_setField hv.within object target.text) hv

theorem sameEnd_setItemAt {q : Machine} {list : ListId} (hq : q.Extends m) (hl : list < q.store.lists.size)
    (h : n.Extends q) (h' : n'.Extends q) (index : Value) (line outer : Nat) {value : Value}
    (hv : value.Simple) :
    SameEnd m.extent
      ((Effect.onStore line (fun s => s.setItemAt list index value) >>= fun _ => pure value) n)
      ((Effect.onStore outer (fun s => s.setItemAt list index value) >>= fun _ => pure value) n') := by
  have hsame {n : Machine} (h : n.Extends q) : position (n.store.items list).size index =
      position (q.store.items list).size index := by rw [h.store.items hl]
  cases hposition : position (q.store.items list).size index with
  | error fault =>
    have hleft := Store.setItemAt_error ((hsame h).trans hposition) value
    have hright := Store.setItemAt_error ((hsame h').trans hposition) value
    exact sameEnd_failed hm (h.trans hq) (h'.trans hq) (Effect.bind_failed (onStore_error hleft line))
      (Effect.bind_failed (onStore_error hright outer))
  | ok i =>
    have hleft := Store.setItemAt_ok ((hsame h).trans hposition) value
    have hright := Store.setItemAt_ok ((hsame h').trans hposition) value
    rw [Effect.bind_done (onStore_ok hleft line), Effect.bind_done (onStore_ok hright outer)]
    exact sameEnd_overwritten hm (h.trans hq) (h'.trans hq) (overwrites_item hv.within list i) hv

end SameEnd

/-! ## The three kinds of targets -/

theorem evaluateAll_single {k : Nat} {e : Expr} {v : Value} {m n : Machine}
    (h : evaluate (k + 1) e m = .done v n) : evaluateAll (k + 2) [e] m = .done [v] n :=
  Effect.bind_done h

section Targets
variable {m : Machine} (hm : m.Sound) {operator : BinaryOperator} (hop : operator.Compound)
include hm

/-- An expression that adds entries only has, for an operator, the same value in every extension. -/
theorem operand_bare {n k : Nat} {e : Expr} {v : Value} {r q : Machine} (he : evaluate n e m = .done v r)
    (hr : r.Extends m) (hk : n ≤ k) (hq : q.Extends m) :
    ∃ v' r', evaluate k e q = .done v' r' ∧ r'.Extends q ∧ v'.bare = v.bare := by
  obtain ⟨v', r', hrun, hext, hv, -⟩ := evaluate_extension hm he hr hq hk
  exact ⟨v', r', hrun, hext, hv.eq ▸ Value.bare_renumber _ v⟩

/-- A property of an object that is evaluated anew. -/
theorem property_reads {n k : Nat} {o : Expr} {id : InstanceId} {c : ClassObject} {r q : Machine}
    (ho : evaluate n o m = .done (.instanceOf id c) r) (hr : r.Extends m) (hk : n ≤ k) (hq : q.Extends r)
    {target inner : Name} (hname : inner.text = target.text) :
    Reads r (instanceProperty id c target q) (evaluate (k + 2) (.get o inner) r) := by
  obtain ⟨hsound, hwithin⟩ := evaluate_sound hm ho
  obtain ⟨object, p, hrun, hp, hcopy, hb⟩ := evaluate_extension hm ho hr hr (Nat.le_succ_of_le hk)
  have hget : evaluate (k + 2) (.get o inner) r = property object inner p := Effect.bind_done hrun
  rw [hget, hcopy.eq]
  exact instanceProperty_reads hsound hwithin hq hb hp hname

/-- An item of a list that is evaluated anew, at an index that is evaluated anew. -/
theorem element_reads {n n' k : Nat} {xs i : Expr} {list : ListId} {index : Value} {r p q q' : Machine}
    {g : Gap} {found : Value} (hfound : found = index.renumber g)
    (hxs : evaluate n xs m = .done (.list list) r) (hr : r.Extends m) (hk : n ≤ k)
    (hi : evaluate n' i m = .done index p) (hp : p.Extends m) (hk' : n' ≤ k) (hq : q.Extends r)
    (hq' : q'.Extends q) (style : CallStyle) (line inner : Nat) :
    Reads q (itemOf list found line q') (evaluate (k + 4) (.call xs style inner [i]) q) := by
  have hlist : list < r.store.lists.size := (evaluate_sound hm hxs).2
  obtain ⟨callee, s, hrun, hs, hcopy, hb⟩ :=
    evaluate_extension (k := k + 3) hm hxs hr (hq.trans hr) (by omega)
  obtain ⟨again, t, hagain, ht, hindex, -⟩ :=
    evaluate_extension (k := k + 2) hm hi hp (hs.trans (hq.trans hr)) (by omega)
  rw [hcopy.eq] at hrun
  have hcall : evaluate (k + 4) (.call xs style inner [i]) q = itemOf _ again inner t :=
    (Effect.bind_done hrun).trans (Effect.bind_done (evaluateAll_single hagain))
  rw [hcall, hfound, hindex.eq]
  exact itemOf_reads hlist hq' hq hb ht (ht.trans hs) index line inner

include hop

theorem assign_writtenOut {target outer inner : Reference} {line : Nat} {e e' : Expr}
    (houter : SamePlace m target outer) (hinner : SamePlace m target inner) (he : Quiet m [e, e']) :
    ∃ n, ∀ fuel ≥ n, SameEnd m.extent (evaluate fuel (.assign target (.compound operator) e) m)
      (evaluate fuel (.assign outer .plain (.binary (.reference inner) operator line e')) m) := by
  obtain ⟨n, v, r, hes, hr⟩ := he
  refine ⟨n + 3, fun fuel hfuel => ?_⟩
  obtain ⟨k, hk, rfl⟩ : ∃ k, n ≤ k ∧ fuel = k + 3 := ⟨fuel - 3, by omega, by omega⟩
  have he : evaluate (k + 2) e m = .done v r := evaluate_more hm (hes e (by simp)) (by omega)
  have hleft : evaluate (k + 3) (.assign target (.compound operator) e) m =
      (combine (.compound operator) target.name.line v (readName m.depths[target.id]? target.name) >>=
        fun w => writeName m.depths[target.id]? target.name w >>= fun _ => pure w) r := by
    refine (Effect.bind_done he).trans ?_
    refine (Effect.read_bind _ _ r).trans ?_
    rw [hr.depths]
  have hreads : Reads m (readName m.depths[target.id]? target.name r) (readReference inner m) := by
    have hread : readReference inner m = readName m.depths[target.id]? inner.name m := by
      refine (Effect.read_bind _ _ m).trans ?_
      rw [hinner.depth]
    rw [hread]
    exact readName_reads hm hr _ hinner.name
  have hcomputes : Computes m
      (combine (.compound operator) target.name.line v (readName m.depths[target.id]? target.name) r)
      (evaluate (k + 2) (.binary (.reference inner) operator line e') m) :=
    combine_computes hop _ _ hreads rfl fun q hq => operand_bare hm (hes e' (by simp)) hr (by omega) hq
  rw [hleft]
  refine Computes.bind hm hcomputes (.refl m) fun w q q' hw hq hq' => ?_
  have hright : (depthOf outer.id >>= fun depth => writeName depth outer.name w >>= fun _ => pure w) q' =
      (writeName m.depths[target.id]? outer.name w >>= fun _ => pure w) q' := by
    refine (Effect.read_bind _ _ q').trans ?_
    rw [hq'.depths, houter.depth]
  refine hright ▸ ?_
  exact sameEnd_writeName hm hq hq' _ houter.name hw

theorem set_writtenOut {name outer inner : Name} {line : Nat} {o o' o'' e e' : Expr}
    (houter : outer.text = name.text) (hinner : inner.text = name.text) (ho : Quiet m [o, o', o''])
    (he : Quiet m [e, e']) :
    ∃ n, ∀ fuel ≥ n, SameEnd m.extent (evaluate fuel (.set o name (.compound operator) e) m)
      (evaluate fuel (.set o' outer .plain (.binary (.get o'' inner) operator line e')) m) := by
  obtain ⟨n, object, r, hos, hr⟩ := ho
  obtain ⟨n', v, s, hes, hs⟩ := he
  refine ⟨n + n' + 4, fun fuel hfuel => ?_⟩
  obtain ⟨k, hk, hk', rfl⟩ : ∃ k, n ≤ k ∧ n' ≤ k ∧ fuel = k + 4 := ⟨fuel - 4, by omega, by omega, by omega⟩
  have ho : evaluate (k + 3) o m = .done object r := evaluate_more hm (hos o (by simp)) (by omega)
  have ho' : evaluate (k + 3) o' m = .done object r := evaluate_more hm (hos o' (by simp)) (by omega)
  cases object with
  | instanceOf id c =>
    obtain ⟨v₁, q, hrun, hq, hv₁⟩ := operand_bare (k := k + 3) hm (hes e (by simp)) hs (by omega) hr
    have hleft : evaluate (k + 4) (.set o name (.compound operator) e) m =
        (combine (.compound operator) name.line v₁ (instanceProperty id c name) >>= fun w =>
          Effect.modifyStore (fun s => s.setField id name.text w) >>= fun _ => pure w) q :=
      (Effect.bind_done ho).trans (Effect.bind_done hrun)
    have hright : evaluate (k + 4) (.set o' outer .plain (.binary (.get o'' inner) operator line e')) m =
        (evaluate (k + 3) (.binary (.get o'' inner) operator line e') >>= fun w =>
          Effect.modifyStore (fun s => s.setField id outer.text w) >>= fun _ => pure w) r :=
      Effect.bind_done ho'
    have hreads := property_reads (k := k) hm (hos o'' (by simp)) hr (by omega) hq hinner
    have hcomputes : Computes r
        (combine (.compound operator) name.line v₁ (instanceProperty id c name) q)
        (evaluate (k + 3) (.binary (.get o'' inner) operator line e') r) :=
      combine_computes hop _ _ hreads hv₁ fun q hq =>
        operand_bare hm (hes e' (by simp)) hs (by omega) (hq.trans hr)
    rw [hleft, hright]
    exact Computes.bind hm hcomputes hr fun w q q' hw hq hq' =>
      sameEnd_setField hm (hq.trans hr) (hq'.trans hr) id houter hw
  | _ => exact sameEnd_failed hm hr hr (Effect.bind_done ho) (Effect.bind_done ho')

theorem setElement_writtenOut {style : CallStyle} {line outer inner line' : Nat}
    {xs xs' xs'' i i' i'' e e' : Expr} (hxs : Quiet m [xs, xs', xs'']) (hi : Quiet m [i, i', i''])
    (he : Quiet m [e, e']) :
    ∃ n, ∀ fuel ≥ n, SameEnd m.extent (evaluate fuel (.setElement xs [i] (.compound operator) line e) m)
      (evaluate fuel (.setElement xs' [i'] .plain outer
        (.binary (.call xs'' style inner [i'']) operator line' e')) m) := by
  obtain ⟨n, object, r, hxss, hr⟩ := hxs
  obtain ⟨n₁, index, p, his, hp⟩ := hi
  obtain ⟨n₂, v, s, hes, hs⟩ := he
  refine ⟨n + n₁ + n₂ + 6, fun fuel hfuel => ?_⟩
  obtain ⟨k, hk, rfl⟩ : ∃ k, n + n₁ + n₂ ≤ k ∧ fuel = k + 6 := ⟨fuel - 6, by omega, by omega⟩
  have hxs : evaluate (k + 5) xs m = .done object r := evaluate_more hm (hxss xs (by simp)) (by omega)
  have hxs' : evaluate (k + 5) xs' m = .done object r := evaluate_more hm (hxss xs' (by simp)) (by omega)
  cases object with
  | list id =>
    have hid : id < r.store.lists.size := (evaluate_sound hm hxs).2
    -- Both sides evaluate the index in the same state.
    obtain ⟨index₁, q, hrun, hq, hindex, hb⟩ :=
      evaluate_extension (k := k + 4) hm (his i (by simp)) hp hr (by omega)
    obtain ⟨index₂, q', hrun', -, hindex', hb'⟩ :=
      evaluate_extension (k := k + 4) hm (his i' (by simp)) hp hr (by omega)
    cases hb.unique hb'
    cases hindex.eq.trans hindex'.eq.symm
    obtain ⟨v₁, q₁, hoperand, hq₁, hv₁⟩ :=
      operand_bare (k := k + 5) hm (hes e (by simp)) hs (by omega) (hq.trans hr)
    have hleft : evaluate (k + 6) (.setElement xs [i] (.compound operator) line e) m =
        (combine (.compound operator) line v₁ (itemOf id index₁ line) >>= fun w =>
          Effect.onStore line (fun s => s.setItemAt id index₁ w) >>= fun _ => pure w) q₁ :=
      (Effect.bind_done hxs).trans
        ((Effect.bind_done (evaluateAll_single hrun)).trans (Effect.bind_done hoperand))
    have hright : evaluate (k + 6) (.setElement xs' [i'] .plain outer
          (.binary (.call xs'' style inner [i'']) operator line' e')) m =
        (evaluate (k + 5) (.binary (.call xs'' style inner [i'']) operator line' e') >>= fun w =>
          Effect.onStore outer (fun s => s.setItemAt id index₁ w) >>= fun _ => pure w) q :=
      (Effect.bind_done hxs').trans (Effect.bind_done (evaluateAll_single hrun'))
    have hreads := element_reads (k := k) hm hindex.eq (hxss xs'' (by simp)) hr (by omega) (his i'' (by simp))
      hp (by omega) hq hq₁ style line inner
    have hcomputes : Computes q (combine (.compound operator) line v₁ (itemOf id index₁ line) q₁)
        (evaluate (k + 5) (.binary (.call xs'' style inner [i'']) operator line' e') q) :=
      combine_computes hop _ _ hreads hv₁ fun q' hq' =>
        operand_bare hm (hes e' (by simp)) hs (by omega) (hq'.trans (hq.trans hr))
    rw [hleft, hright]
    refine Computes.bind hm hcomputes (hq.trans hr) fun w n n' hw hn hn' => ?_
    have hlist : id < q.store.lists.size := Nat.lt_of_lt_of_le hid hq.store.extent_le.lists
    exact sameEnd_setItemAt hm (hq.trans hr) hlist hn hn' index₁ line outer hw
  | _ => exact sameEnd_failed hm hr hr (Effect.bind_done hxs) (Effect.bind_done hxs')

end Targets

theorem quiet_of_run {m r : Machine} {n : Nat} {e : Expr} {v : Value} (he : evaluate n e m = .done v r)
    (hr : r.Extends m) (copies : Nat) : Quiet m (List.replicate copies e) :=
  ⟨n, v, r, fun _ hcopy => List.eq_of_mem_replicate hcopy ▸ he, hr⟩

/-- A machine with a name for an integer, for an instance with a field, and for a list. -/
def sampleMachine : Machine where
  store :=
    { scopes := #[⟨[("x", .int 5), ("o", .instanceOf 0 ⟨0, "C", none, []⟩), ("xs", .list 0)], none⟩]
      lists := #[#[.int 7]]
      instances := #[[("f", .int 2)]]
      nextIdentity := 1 }
  current := 0
  globals := 0

theorem sampleMachine_sound : sampleMachine.Sound := by
  refine ⟨⟨?_, ?_, ?_, ?_⟩, by decide, by decide⟩
  · intro i scope hs
    match i with
    | 0 =>
      cases hs
      intro entry he
      rcases List.mem_cons.1 he with rfl | he
      · trivial
      · rcases List.mem_cons.1 he with rfl | he
        · exact ⟨Nat.zero_lt_one, Nat.zero_lt_one, trivial, List.forall_mem_nil _⟩
        · rcases List.mem_cons.1 he with rfl | he
          · exact Nat.zero_lt_one
          · cases he
    | i + 1 => cases hs
  · intro i scope outer hs ho
    match i with
    | 0 =>
      cases hs
      cases ho
    | i + 1 => cases hs
  · intro i items hs v hv
    match i with
    | 0 =>
      cases hs
      rcases Array.mem_singleton.1 hv with rfl
      trivial
    | i + 1 => cases hs
  · intro i fields hs
    match i with
    | 0 =>
      cases hs
      exact List.forall_mem_singleton.2 trivial
    | i + 1 => cases hs

/-- The length of a new list, which nothing refers to afterwards. -/
def sampleOperand : Expr := .call (.get (.list 1 []) ⟨"len", 1⟩) .parens 1 []

theorem sampleOperand_quiet : Quiet sampleMachine [sampleOperand, sampleOperand] := by
  have hrun : evaluate 4 sampleOperand sampleMachine =
      .done (.int 0) { sampleMachine with store := (sampleMachine.store.newList #[]).2 } := rfl
  have hextends : (sampleMachine.store.newList #[]).2.Extends sampleMachine.store :=
    Store.extends_of_take (take_self _) (take_push _ _) (take_self _) (Nat.le_refl _)
  exact quiet_of_run hrun (.changed hextends) 2

/-- Where no reference dangles, as it is throughout a session, a compound assignment ends as the plain
assignment does that it stands for. -/
theorem compound_assignment_as_written_out {m : Machine} {operator : BinaryOperator} {e e' : Expr}
    (hm : m.Sound) (hop : operator.Compound) (h : WrittenOut m operator e e') :
    ∃ n, ∀ fuel ≥ n, SameEnd m.extent (evaluate fuel e m) (evaluate fuel e' m) := by
  cases h with
  | name houter hinner he => exact assign_writtenOut hm hop houter hinner he
  | field houter hinner ho he => exact set_writtenOut hm hop houter hinner ho he
  | element hxs hi he => exact setElement_writtenOut hm hop hxs hi he

theorem compound_assignment_as_written_out_sample :
    (∃ n, ∀ fuel ≥ n, SameEnd sampleMachine.extent
      (evaluate fuel (.assign ⟨0, ⟨"x", 1⟩⟩ (.compound .add) sampleOperand) sampleMachine)
      (evaluate fuel (.assign ⟨0, ⟨"x", 1⟩⟩ .plain
        (.binary (.reference ⟨1, ⟨"x", 2⟩⟩) .add 2 sampleOperand)) sampleMachine)) ∧
    (∃ n, ∀ fuel ≥ n, SameEnd sampleMachine.extent
      (evaluate fuel (.set (.reference ⟨0, ⟨"o", 1⟩⟩) ⟨"f", 1⟩ (.compound .multiply) sampleOperand)
        sampleMachine)
      (evaluate fuel (.set (.reference ⟨0, ⟨"o", 1⟩⟩) ⟨"f", 1⟩ .plain
        (.binary (.get (.reference ⟨0, ⟨"o", 1⟩⟩) ⟨"f", 2⟩) .multiply 2 sampleOperand)) sampleMachine)) ∧
    (∃ n, ∀ fuel ≥ n, SameEnd sampleMachine.extent
      (evaluate fuel (.setElement (.reference ⟨0, ⟨"xs", 1⟩⟩) [.literal (.int 0)] (.compound .divide) 1
        sampleOperand) sampleMachine)
      (evaluate fuel (.setElement (.reference ⟨0, ⟨"xs", 1⟩⟩) [.literal (.int 0)] .plain 1
        (.binary (.call (.reference ⟨0, ⟨"xs", 1⟩⟩) .brackets 2 [.literal (.int 0)]) .divide 2
          sampleOperand)) sampleMachine)) := by
  have hobject : Quiet sampleMachine (List.replicate 3 (.reference ⟨0, ⟨"o", 1⟩⟩)) :=
    quiet_of_run (n := 1) (v := .instanceOf 0 ⟨0, "C", none, []⟩) rfl (.refl sampleMachine) 3
  have hlist : Quiet sampleMachine (List.replicate 3 (.reference ⟨0, ⟨"xs", 1⟩⟩)) :=
    quiet_of_run (n := 1) (v := .list 0) rfl (.refl sampleMachine) 3
  have hindex : Quiet sampleMachine (List.replicate 3 (.literal (.int 0))) :=
    quiet_of_run (n := 1) (v := .int 0) rfl (.refl sampleMachine) 3
  refine ⟨?_, ?_, ?_⟩
  · exact compound_assignment_as_written_out sampleMachine_sound ⟨.mark .plusEqual, rfl⟩
      (.name ⟨rfl, rfl⟩ ⟨rfl, rfl⟩ sampleOperand_quiet)
  · exact compound_assignment_as_written_out sampleMachine_sound ⟨.mark .starEqual, rfl⟩
      (.field rfl rfl hobject sampleOperand_quiet)
  · exact compound_assignment_as_written_out sampleMachine_sound ⟨.mark .slashEqual, rfl⟩
      (.element hlist hindex sampleOperand_quiet)

end LoxLang
