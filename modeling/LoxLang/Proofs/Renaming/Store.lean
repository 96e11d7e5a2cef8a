import Mathlib.Data.List.Find
import LoxLang.Proofs.Renaming.Value
import LoxLang.Proofs.Store

/-!
# Stores in a run of the renamed program

Both runs open the same scopes. A scope in which names are exchanged binds in the second store under the
exchanged name what it binds in the first one, and every other scope binds the same names. Lists and
instances are the same but for the code in them.
-/

namespace LoxLang

variable {ρ : Renaming} {w later : World}

/-! ## Tables -/

/-- The second table has under the exchanged names what the first one has. -/
def BindingsMatch (ρ : Renaming) (w : World) (n : Nesting) (t t' : Table Value) : Prop :=
  ∀ name, Option.Rel (ValuesMatch ρ w) (t.get? name) (t'.get? (ρ.key n name))

theorem bindingsMatch_nil (n : Nesting) : BindingsMatch ρ w n [] [] := fun _ => .none

theorem BindingsMatch.put {n : Nesting} {t t' : Table Value} (h : BindingsMatch ρ w n t t') (name : String)
    {v v' : Value} (hv : ValuesMatch ρ w v v') :
    BindingsMatch ρ w n (t.put name v) (t'.put (ρ.key n name) v') := by
  intro found
  simp only [Table.get?_put, (ρ.key_injective n).eq_iff]
  split
  · exact .some hv
  · exact h found

/-! ## Stores -/

/-- The second array has at every place the value for the one in the first array. -/
structure ItemsMatch (ρ : Renaming) (w : World) (xs ys : Array Value) : Prop where
  size : ys.size = xs.size
  item : ∀ i : Nat, Option.Rel (ValuesMatch ρ w) xs[i]? ys[i]?

structure StoresMatch (ρ : Renaming) (w : World) (s s' : Store) : Prop where
  size : s.scopes.size = w.length
  size' : s'.scopes.size = w.length
  enclosing : ∀ scope, s'.enclosing? scope = s.enclosing? scope
  inside : ∀ scope n outer, w[scope]? = some n → s.enclosing? scope = some outer →
    ∃ k, w[outer]? = some k ∧ Enters k n
  outermost : ∀ scope n, w[scope]? = some n → s.enclosing? scope = none → n = none
  bindings : ∀ scope n, w[scope]? = some n → ∀ name,
    Option.Rel (ValuesMatch ρ w) (s.binding? scope name) (s'.binding? scope (ρ.key n name))
  lists : s'.lists.size = s.lists.size
  items : ∀ list, ItemsMatch ρ w (s.items list) (s'.items list)
  instances : s'.instances.size = s.instances.size
  fields : ∀ object name, Option.Rel (ValuesMatch ρ w) (s.field? object name) (s'.field? object name)
  nextIdentity : s'.nextIdentity = s.nextIdentity

namespace StoresMatch
variable {s s' : Store}

/-! ## Opening a scope -/

/-- A new scope lies inside one that is there, and in the later world it has its nesting. -/
theorem newScope (h : StoresMatch ρ w s s') {k n : Nesting} {outer : ScopeId} (hk : w[outer]? = some k)
    (hn : Enters k n) {t t' : Table Value} (ht : BindingsMatch ρ w n t t') :
    StoresMatch ρ (w ++ [n]) (s.newScope t (some outer)).2 (s'.newScope t' (some outer)).2 := by
  have hw : w.Grows (w ++ [n]) := List.prefix_append w [n]
  have hcases {scope : ScopeId} {found : Nesting} (hf : (w ++ [n])[scope]? = some found) :
      scope = w.length ∧ found = n ∨ scope ≠ w.length ∧ w[scope]? = some found := by
    rcases Nat.lt_trichotomy scope w.length with hlt | heq | hgt
    · exact .inr ⟨Nat.ne_of_lt hlt, by rwa [List.getElem?_append_left hlt] at hf⟩
    · subst heq
      exact .inl ⟨rfl, Option.some.inj (hf.symm.trans (w.nesting_new n))⟩
    · have hle : (w ++ [n]).length ≤ scope := by
        rw [List.length_append]
        exact hgt
      rw [List.getElem?_eq_none hle] at hf
      cases hf
  have hnone : s.enclosing? w.length = none := by
    cases he : s.enclosing? w.length with
    | none => rfl
    | some found => exact absurd (h.size ▸ Store.lt_size_of_enclosing he) (Nat.lt_irrefl _)
  constructor
  case size => rw [Store.newScope_size, h.size, List.length_append, List.length_singleton]
  case size' => rw [Store.newScope_size, h.size', List.length_append, List.length_singleton]
  case enclosing =>
    intro scope
    rw [Store.newScope_enclosing, Store.newScope_enclosing, h.size, h.size', h.enclosing]
  case inside =>
    intro scope found around hf he
    rw [Store.newScope_enclosing, h.size] at he
    rcases hcases hf with ⟨rfl, rfl⟩ | ⟨hne, hf⟩
    · rw [if_pos rfl] at he
      cases he
      exact ⟨k, hw.nesting hk, hn⟩
    · rw [if_neg hne] at he
      obtain ⟨j, hj, henters⟩ := h.inside scope found around hf he
      exact ⟨j, hw.nesting hj, henters⟩
  case outermost =>
    intro scope found hf he
    rw [Store.newScope_enclosing, h.size] at he
    rcases hcases hf with ⟨rfl, rfl⟩ | ⟨hne, hf⟩
    · rw [if_pos rfl] at he
      cases he
    · rw [if_neg hne] at he
      exact h.outermost scope found hf he
  case bindings =>
    intro scope found hf name
    rw [Store.newScope_binding, Store.newScope_binding, h.size, h.size']
    rcases hcases hf with ⟨rfl, rfl⟩ | ⟨hne, hf⟩
    · rw [if_pos rfl, if_pos rfl]
      exact optionRel_imp (fun _ _ hv => hv.grow hw) (ht name)
    · rw [if_neg hne, if_neg hne]
      exact optionRel_imp (fun _ _ hv => hv.grow hw) (h.bindings scope found hf name)
  case items =>
    intro list
    exact ⟨(h.items list).size, fun i => optionRel_imp (fun _ _ hv => hv.grow hw) ((h.items list).item i)⟩
  case fields =>
    intro object name
    exact optionRel_imp (fun _ _ hv => hv.grow hw) (h.fields object name)
  case lists => exact h.lists
  case instances => exact h.instances
  case nextIdentity => exact h.nextIdentity

/-! ## Names -/

theorem define (h : StoresMatch ρ w s s') {scope : ScopeId} {n : Nesting} (hn : w[scope]? = some n)
    (name : String) {v v' : Value} (hv : ValuesMatch ρ w v v') :
    StoresMatch ρ w (s.define scope name v) (s'.define scope (ρ.key n name) v') := by
  have hlt := World.lt_length hn
  constructor
  case size => rw [Store.define_size, h.size]
  case size' => rw [Store.define_size, h.size']
  case enclosing =>
    intro other
    rw [Store.define_enclosing, Store.define_enclosing, h.enclosing]
  case inside =>
    intro other k outer hk he
    rw [Store.define_enclosing] at he
    exact h.inside other k outer hk he
  case outermost =>
    intro other k hk he
    rw [Store.define_enclosing] at he
    exact h.outermost other k hk he
  case bindings =>
    intro other k hk found
    by_cases ho : other = scope
    · subst ho
      cases hk.symm.trans hn
      simp only [Store.define_binding_self (h.size ▸ hlt), Store.define_binding_self (h.size' ▸ hlt),
        (ρ.key_injective n).eq_iff]
      split
      · exact .some hv
      · exact h.bindings other n hn found
    · rw [Store.define_binding_ne ho, Store.define_binding_ne ho]
      exact h.bindings other k hk found
  case lists => exact h.lists
  case items => exact h.items
  case instances => exact h.instances
  case fields => exact h.fields
  case nextIdentity => exact h.nextIdentity

/-- The way out of a scope leads through the same scopes, and it comes to the one in which names are
exchanged after as many steps as the nesting counts. -/
theorem ancestor (h : StoresMatch ρ w s s') (distance : Nat) {scope : ScopeId} {n : Nesting}
    (hn : w[scope]? = some n) :
    s'.ancestor distance scope = s.ancestor distance scope ∧
      ∃ k, w[s.ancestor distance scope]? = some k ∧ (k = some 0 ↔ n = some distance) := by
  induction distance generalizing scope n with
  | zero => exact ⟨rfl, n, hn, Iff.rfl⟩
  | succ distance ih =>
    unfold Store.ancestor
    rw [h.enclosing]
    cases he : s.enclosing? scope with
    | none =>
      cases h.outermost scope n hn he
      exact ⟨rfl, none, hn, by simp⟩
    | some outer =>
      obtain ⟨j, hj, henters⟩ := h.inside scope n outer hn he
      obtain ⟨hsame, k, hk, hiff⟩ := ih hj
      refine ⟨hsame, k, hk, hiff.trans ?_⟩
      cases henters with
      | inner => cases j <;> simp [Nesting.inner]
      | here => simp

/-- A name that has a depth is found in the same scope, there under its exchanged name if it is used so. -/
theorem binderAt (h : StoresMatch ρ w s s') (distance : Nat) (name : String) {scope : ScopeId} {n : Nesting}
    (hn : w[scope]? = some n) :
    s'.binderAt? scope distance (ρ.used n (some distance) name) = s.binderAt? scope distance name ∧
      ∀ holder, s.binderAt? scope distance name = some holder →
        ∃ k, w[holder]? = some k ∧ ρ.key k name = ρ.used n (some distance) name := by
  obtain ⟨hsame, k, hk, hiff⟩ := h.ancestor distance hn
  have hkey : ρ.key k name = ρ.used n (some distance) name := by
    unfold Renaming.key Renaming.used
    by_cases hzero : k = some 0
    · have hn := hiff.1 hzero
      rw [if_pos hzero, if_pos ⟨hn ▸ nofun, hn.symm⟩]
    · rw [if_neg hzero, if_neg fun hused => hzero (hiff.2 hused.2.symm)]
  have hbound : (s'.binding? (s.ancestor distance scope) (ρ.used n (some distance) name)).isSome =
      (s.binding? (s.ancestor distance scope) name).isSome := by
    have hb := h.bindings _ k hk name
    rw [hkey] at hb
    generalize s.binding? (s.ancestor distance scope) name = found,
      s'.binding? (s.ancestor distance scope) (ρ.used n (some distance) name) = found' at hb
    cases hb <;> rfl
  unfold Store.binderAt?
  dsimp only
  rw [hsame, hbound]
  refine ⟨rfl, fun holder hholder => ?_⟩
  split at hholder
  · cases hholder
    exact ⟨k, hk, hkey⟩
  · cases hholder

/-- Where no names are exchanged, the way out leads through scopes in which none are. -/
theorem chainFrom (h : StoresMatch ρ w s s') (fuel : Nat) {scope : ScopeId} (hn : w[scope]? = some none) :
    s'.chainFrom fuel scope = s.chainFrom fuel scope ∧
      ∀ outer ∈ s.chainFrom fuel scope, w[outer]? = some none := by
  induction fuel generalizing scope with
  | zero => exact ⟨rfl, nofun⟩
  | succ fuel ih =>
    have hlt := World.lt_length hn
    have hsame := h.enclosing scope
    have hinside := h.inside scope none
    unfold Store.chainFrom
    unfold Store.enclosing? at hsame hinside
    have hs : scope < s.scopes.size := h.size ▸ hlt
    have hs' : scope < s'.scopes.size := h.size' ▸ hlt
    rw [Array.getElem?_eq_getElem hs, Array.getElem?_eq_getElem hs'] at *
    dsimp only [Option.bind_some] at hsame hinside ⊢
    rw [hsame]
    cases he : s.scopes[scope].enclosing with
    | none => exact ⟨rfl, by simpa using hn⟩
    | some outer =>
      obtain ⟨k, hk, henters⟩ := hinside outer hn he
      obtain rfl : k = none := by
        generalize hnone : (none : Nesting) = n at henters
        cases henters with
        | inner => cases k <;> first | rfl | cases hnone
        | here => cases hnone
      obtain ⟨hrest, hnesting⟩ := ih hk
      exact ⟨congrArg (List.cons scope) hrest, List.forall_mem_cons.2 ⟨hn, hnesting⟩⟩

/-- Where no names are exchanged, a name is found in the same scope. -/
theorem binder (h : StoresMatch ρ w s s') {scope : ScopeId} (hn : w[scope]? = some none) (name : String) :
    s'.binder? scope name = s.binder? scope name ∧
      ∀ holder, s.binder? scope name = some holder → w[holder]? = some none := by
  obtain ⟨hsame, hnesting⟩ := h.chainFrom (scope + 1) hn
  unfold Store.binder? Store.chain
  rw [hsame]
  refine ⟨List.find?_congr fun outer ho => ?_,
    fun holder hholder => hnesting holder (List.mem_of_find?_eq_some hholder)⟩
  have hb := h.bindings outer none (hnesting outer ho) name
  rw [ρ.key_none] at hb
  generalize s.binding? outer name = found, s'.binding? outer name = found' at hb
  cases hb <;> rfl

/-! ## Lists -/

theorem newIdentity (h : StoresMatch ρ w s s') :
    s'.newIdentity.1 = s.newIdentity.1 ∧ StoresMatch ρ w s.newIdentity.2 s'.newIdentity.2 :=
  ⟨h.nextIdentity, { h with nextIdentity := congrArg (· + 1) h.nextIdentity }⟩

theorem newList (h : StoresMatch ρ w s s') {xs ys : Array Value} (hxs : ItemsMatch ρ w xs ys) :
    (s'.newList ys).1 = (s.newList xs).1 ∧ StoresMatch ρ w (s.newList xs).2 (s'.newList ys).2 := by
  refine ⟨h.lists, { h with lists := ?_, items := fun list => ?_ }⟩
  · simp only [Store.newList, Array.size_push, h.lists]
  · have hitems := h.items list
    unfold Store.newList Store.items at *
    dsimp only at *
    rw [Array.getElem?_push, Array.getElem?_push, h.lists]
    split
    · exact hxs
    · exact hitems

theorem items_modifyList (s : Store) (list other : ListId) (change : Array Value → Array Value) :
    (s.modifyList list change).items other =
      if list = other ∧ other < s.lists.size then change (s.items list) else s.items other := by
  unfold Store.modifyList Store.items
  dsimp only
  rw [Array.getElem?_modify]
  by_cases heq : list = other
  · subst heq
    by_cases hlt : list < s.lists.size
    · rw [if_pos rfl, if_pos ⟨rfl, hlt⟩, Array.getElem?_eq_getElem hlt]
      rfl
    · rw [if_pos rfl, if_neg fun h => hlt h.2, Array.getElem?_eq_none (Nat.le_of_not_lt hlt)]
      rfl
  · rw [if_neg heq, if_neg fun h => heq h.1]

theorem modifyList (h : StoresMatch ρ w s s') (list : ListId) {change change' : Array Value → Array Value}
    (hc : ItemsMatch ρ w (change (s.items list)) (change' (s'.items list))) :
    StoresMatch ρ w (s.modifyList list change) (s'.modifyList list change') := by
  refine { h with lists := ?_, items := fun other => ?_ }
  · simp only [Store.modifyList, Array.size_modify, h.lists]
  · rw [items_modifyList, items_modifyList, h.lists]
    split
    · exact hc
    · exact h.items other

end StoresMatch

/-! ## Items -/

namespace ItemsMatch
variable {xs ys : Array Value}

theorem push (h : ItemsMatch ρ w xs ys) {v v' : Value} (hv : ValuesMatch ρ w v v') :
    ItemsMatch ρ w (xs.push v) (ys.push v') := by
  refine ⟨by simp only [Array.size_push, h.size], fun i => ?_⟩
  rw [Array.getElem?_push, Array.getElem?_push, h.size]
  split
  · exact .some hv
  · exact h.item i

theorem pop (h : ItemsMatch ρ w xs ys) : ItemsMatch ρ w xs.pop ys.pop := by
  refine ⟨by simp only [Array.size_pop, h.size], fun i => ?_⟩
  rw [Array.getElem?_pop, Array.getElem?_pop, h.size]
  split
  · exact h.item i
  · exact .none

theorem set (h : ItemsMatch ρ w xs ys) (i : Nat) {v v' : Value} (hv : ValuesMatch ρ w v v') :
    ItemsMatch ρ w (xs.setIfInBounds i v) (ys.setIfInBounds i v') := by
  refine ⟨by simp only [Array.size_setIfInBounds, h.size], fun j => ?_⟩
  rw [Array.getElem?_setIfInBounds, Array.getElem?_setIfInBounds, h.size]
  split
  · split
    · exact .some hv
    · exact .none
  · exact h.item j

theorem extract (h : ItemsMatch ρ w xs ys) (start stop : Nat) :
    ItemsMatch ρ w (xs.extract start stop) (ys.extract start stop) := by
  refine ⟨by simp only [Array.size_extract, h.size], fun i => ?_⟩
  rw [Array.getElem?_extract, Array.getElem?_extract, h.size]
  split
  · exact h.item (start + i)
  · exact .none

theorem empty : ItemsMatch ρ w #[] #[] := ⟨rfl, fun _ => .none⟩

theorem of_arguments {vs vs' : List Value} (h : ArgumentsMatch ρ w vs vs') :
    ItemsMatch ρ w vs.toArray vs'.toArray := by
  refine ⟨h.length_eq.symm, fun i => ?_⟩
  rw [List.getElem?_toArray, List.getElem?_toArray]
  induction h generalizing i with
  | nil => exact .none
  | cons hv _ ih =>
    cases i with
    | zero => exact .some hv
    | succ i => exact ih i

theorem toList (h : ItemsMatch ρ w xs ys) : List.Forall₂ (ValuesMatch ρ w) xs.toList ys.toList := by
  rw [List.forall₂_iff_get]
  refine ⟨h.size.symm, fun i hx hy => ?_⟩
  have hi := h.item i
  rw [Array.getElem?_eq_getElem hx, Array.getElem?_eq_getElem hy] at hi
  cases hi with
  | some hv => exact hv

end ItemsMatch

/-! ## Operations on lists -/

/-- The same operation succeeds with values that correspond, or fails for the same reason. -/
inductive ResultsMatch {α : Type} (R : α → α → Prop) : Except Fault α → Except Fault α → Prop
  | ok {a a' : α} : R a a' → ResultsMatch R (.ok a) (.ok a')
  | error {fault : Fault} : ResultsMatch R (.error fault) (.error fault)

theorem ResultsMatch.refl {α : Type} {R : α → α → Prop} {result : Except Fault α}
    (h : ∀ a, result = .ok a → R a a) : ResultsMatch R result result := by
  cases result with
  | error => exact .error
  | ok a => exact .ok (h a rfl)

namespace StoresMatch
variable {s s' : Store} {i i' j j' v v' : Value}

theorem position (length : Nat) (hi : ValuesMatch ρ w i i') :
    LoxLang.position length i' = LoxLang.position length i := by
  cases hi <;> rfl

theorem slicePositions (length : Nat) (hi : ValuesMatch ρ w i i') (hj : ValuesMatch ρ w j j') :
    LoxLang.slicePositions length i' j' = LoxLang.slicePositions length i j := by
  cases hi <;> cases hj <;> first | rfl | (cases i <;> rfl)

theorem itemAt (h : StoresMatch ρ w s s') (list : ListId) (hi : ValuesMatch ρ w i i') :
    ResultsMatch (ValuesMatch ρ w) (s.itemAt list i) (s'.itemAt list i') := by
  have hitems := h.items list
  unfold Store.itemAt
  dsimp only
  rw [hitems.size, position _ hi]
  cases LoxLang.position (s.items list).size i with
  | error => exact .error
  | ok place =>
    have hitem := hitems.item place
    change ResultsMatch _ (.ok ((s.items list)[place]?.getD .nil)) (.ok ((s'.items list)[place]?.getD .nil))
    generalize (s.items list)[place]? = found, (s'.items list)[place]? = found' at hitem
    cases hitem with
    | none => exact .ok valuesMatch_nil
    | some hv => exact .ok hv

theorem setItemAt (h : StoresMatch ρ w s s') (list : ListId) (hi : ValuesMatch ρ w i i')
    (hv : ValuesMatch ρ w v v') :
    ResultsMatch (fun _ _ => True) (s.setItemAt list i v).1 (s'.setItemAt list i' v').1 ∧
      StoresMatch ρ w (s.setItemAt list i v).2 (s'.setItemAt list i' v').2 := by
  have hitems := h.items list
  unfold Store.setItemAt
  rw [hitems.size, position _ hi]
  cases LoxLang.position (s.items list).size i with
  | error => exact ⟨.error, h⟩
  | ok place => exact ⟨.ok trivial, h.modifyList list (hitems.set place hv)⟩

theorem sliceOf (h : StoresMatch ρ w s s') (list : ListId) (hi : ValuesMatch ρ w i i')
    (hj : ValuesMatch ρ w j j') :
    ResultsMatch (ValuesMatch ρ w) (s.sliceOf list i j).1 (s'.sliceOf list i' j').1 ∧
      StoresMatch ρ w (s.sliceOf list i j).2 (s'.sliceOf list i' j').2 := by
  have hitems := h.items list
  unfold Store.sliceOf
  dsimp only
  rw [hitems.size, slicePositions _ hi hj]
  cases LoxLang.slicePositions (s.items list).size i j with
  | error => exact ⟨.error, h⟩
  | ok ends =>
    obtain ⟨hid, hs⟩ := h.newList (hitems.extract ends.1 ends.2)
    refine ⟨?_, hs⟩
    dsimp only
    rw [hid]
    exact .ok (.codeFree trivial)

theorem callListMethod (h : StoresMatch ρ w s s') (list : ListId) (method : ListMethod)
    {vs vs' : List Value} (hvs : ArgumentsMatch ρ w vs vs') :
    ResultsMatch (ValuesMatch ρ w) (s.callListMethod list method vs).1 (s'.callListMethod list method vs').1 ∧
      StoresMatch ρ w (s.callListMethod list method vs).2 (s'.callListMethod list method vs').2 := by
  have hitems := h.items list
  have hlength := hvs.length_eq
  have hcount {arity : Nat} {vs vs' : List Value} (hl : vs.length = vs'.length) :
      ResultsMatch (ValuesMatch ρ w) (.error (.argumentCount arity vs.length))
        (.error (.argumentCount arity vs'.length)) := hl ▸ .error
  cases method <;> rcases hvs with _ | ⟨ha, _ | ⟨hb, _ | ⟨hc, hrest⟩⟩⟩
  case push.cons.nil => exact ⟨.ok valuesMatch_nil, h.modifyList list (hitems.push ha)⟩
  case pop.nil =>
    have hlast := hitems.item ((s.items list).size - 1)
    unfold Store.callListMethod
    dsimp only
    rw [Array.back?_eq_getElem?, Array.back?_eq_getElem?, hitems.size]
    generalize (s.items list)[(s.items list).size - 1]? = found,
      (s'.items list)[(s.items list).size - 1]? = found' at hlast
    cases hlast with
    | none => exact ⟨.error, h⟩
    | some hv => exact ⟨.ok hv, h.modifyList list hitems.pop⟩
  case clear.nil => exact ⟨.ok valuesMatch_nil, h.modifyList list .empty⟩
  case len.nil =>
    refine ⟨?_, h⟩
    unfold Store.callListMethod
    rw [hitems.size]
    exact .ok (.codeFree trivial)
  case getAt.cons.nil => exact ⟨h.itemAt list ha, h⟩
  case setAt.cons.cons.nil =>
    obtain ⟨hresult, hs⟩ := h.setItemAt list ha hb
    refine ⟨?_, hs⟩
    unfold Store.callListMethod
    dsimp only
    generalize (s.setItemAt list _ _).1 = result, (s'.setItemAt list _ _).1 = result' at hresult
    cases hresult with
    | ok => exact .ok valuesMatch_nil
    | error => exact .error
  case slice.cons.cons.nil => exact h.sliceOf list ha hb
  all_goals exact ⟨hcount hlength, h⟩

/-! ## Instances -/

theorem newInstance (h : StoresMatch ρ w s s') :
    s'.newInstance.1 = s.newInstance.1 ∧ StoresMatch ρ w s.newInstance.2 s'.newInstance.2 := by
  refine ⟨h.instances, { h with instances := ?_, fields := fun object name => ?_ }⟩
  · simp only [Store.newInstance, Array.size_push, h.instances]
  · rw [Store.field_newInstance, Store.field_newInstance]
    exact h.fields object name

theorem field_setField (s : Store) (object other : InstanceId) (name found : String) (v : Value) :
    (s.setField object name v).field? other found =
      if (object = other ∧ other < s.instances.size) ∧ name = found then some v else s.field? other found := by
  unfold Store.setField Store.field?
  dsimp only
  rw [Array.getElem?_modify]
  by_cases heq : object = other
  · subst heq
    by_cases hlt : object < s.instances.size
    · rw [if_pos rfl, Array.getElem?_eq_getElem hlt]
      dsimp only [Option.map_some, Option.bind_some]
      rw [Table.get?_put]
      simp only [hlt, true_and, and_self]
    · rw [if_pos rfl, if_neg fun h => hlt h.1.2, Array.getElem?_eq_none (Nat.le_of_not_lt hlt)]
      rfl
  · rw [if_neg heq, if_neg fun h => heq h.1.1]

theorem setField (h : StoresMatch ρ w s s') (object : InstanceId) (name : String)
    (hv : ValuesMatch ρ w v v') : StoresMatch ρ w (s.setField object name v) (s'.setField object name v') := by
  refine { h with instances := ?_, fields := fun other found => ?_ }
  · simp only [Store.setField, Array.size_modify, h.instances]
  · rw [field_setField, field_setField, h.instances]
    split
    · exact .some hv
    · exact h.fields other found

end StoresMatch

/-! ## Texts -/

theorem walk_forall₂ {α β σ : Type} {R : α → α → Prop} {step step' : σ → α → Option (β × σ)}
    (h : ∀ state a a', R a a' → step' state a' = step state a) (state : σ) {items items' : List α}
    (hitems : List.Forall₂ R items items') : walk step' state items' = walk step state items := by
  induction hitems generalizing state with
  | nil => rfl
  | cons ha _ ih =>
    rw [walk, walk, h state _ _ ha]
    simp only [ih]

theorem StoresMatch.textInside {s s' : Store} {v v' : Value} (h : StoresMatch ρ w s s') (fuel : Nat)
    (opened : List ListId) (hv : ValuesMatch ρ w v v') : s'.textInside fuel opened v' = s.textInside fuel opened v := by
  induction fuel generalizing opened v v' with
  | zero =>
    have hplain := hv.plainText
    cases hv with
    | codeFree => cases v <;> rfl
    | _ => exact congrArg (fun text => some (text, opened)) hplain
  | succ fuel ih =>
    have hplain := hv.plainText
    cases hv with
    | codeFree =>
      cases v with
      | list id =>
        have hwalk := walk_forall₂ (R := ValuesMatch ρ w) (fun state _ _ ha => ih state ha) (id :: opened)
          (h.items id).toList
        simp only [Store.textInside, hwalk]
      | _ => rfl
    | _ => exact congrArg (fun text => some (text, opened)) hplain

theorem StoresMatch.text {s s' : Store} {v v' : Value} (h : StoresMatch ρ w s s') (fuel : Nat)
    (hv : ValuesMatch ρ w v v') :
    s'.text? fuel v' = s.text? fuel v := congrArg (Option.map Prod.fst) (h.textInside fuel [] hv)

end LoxLang
