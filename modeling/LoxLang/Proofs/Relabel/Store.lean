import LoxLang.Proofs.Relabel.Value

/-!
# Stores with other lines and identities

Every operation on a store commutes with relabelling the functions in it.
-/

namespace LoxLang

theorem modify_map {α β : Type} {f : α → β} {g : α → α} {g' : β → β} (h : ∀ a, g' (f a) = f (g a))
    (xs : Array α) (i : Nat) : (xs.map f).modify i g' = (xs.modify i g).map f := by
  apply Array.ext_getElem?
  intro j
  rw [Array.getElem?_modify, Array.getElem?_map, Array.getElem?_map, Array.getElem?_modify]
  split
  · cases xs[j]? with
    | none => rfl
    | some a => exact congrArg some (h a)
  · rfl

def Scope.relabel (l : Relabelling) (scope : Scope) : Scope :=
  { scope with bindings := scope.bindings.mapValues (Value.relabel l) }

/-- The store with all of its functions relabelled. -/
def Store.relabel (l : Relabelling) (s : Store) : Store where
  scopes := s.scopes.map (Scope.relabel l)
  lists := s.lists.map (Array.map (Value.relabel l))
  instances := s.instances.map (Table.mapValues (Value.relabel l))
  nextIdentity := s.nextIdentity

namespace Store
variable (l : Relabelling) (s : Store)

theorem relabel_relabel (again : Relabelling) : (s.relabel l).relabel again = s.relabel (l.andThen again) := by
  have hvalue : Value.relabel again ∘ Value.relabel l = Value.relabel (l.andThen again) :=
    funext (Value.relabel_relabel l again)
  have hscope : Scope.relabel again ∘ Scope.relabel l = Scope.relabel (l.andThen again) := by
    funext scope
    simp only [Function.comp_apply, Scope.relabel, Table.mapValues_mapValues, hvalue]
  have htable : Table.mapValues (Value.relabel again) ∘ Table.mapValues (Value.relabel l) =
      Table.mapValues (Value.relabel (l.andThen again)) := by
    funext table
    rw [Function.comp_apply, Table.mapValues_mapValues, hvalue]
  have hlist : Array.map (Value.relabel again) ∘ Array.map (Value.relabel l) =
      Array.map (Value.relabel (l.andThen again)) := by
    funext list
    rw [Function.comp_apply, Array.map_map, hvalue]
  simp only [relabel, Array.map_map, hscope, htable, hlist]

theorem relabel_same : s.relabel .same = s := by
  have hscope : Scope.relabel .same = id := by
    funext scope
    simp only [Scope.relabel, Value.relabel_same, Table.mapValues_id, id_eq]
  have htable : Table.mapValues (@id Value) = id := funext Table.mapValues_id
  have hlist : Array.map (@id Value) = id := funext Array.map_id
  simp only [relabel, hscope, Value.relabel_same, htable, hlist, Array.map_id]

/-! ## Scopes -/

theorem enclosing?_relabel (scope : ScopeId) : (s.relabel l).enclosing? scope = s.enclosing? scope := by
  unfold enclosing? relabel
  rw [Array.getElem?_map]
  cases s.scopes[scope]? <;> rfl

theorem binding?_relabel (scope : ScopeId) (name : String) :
    (s.relabel l).binding? scope name = (s.binding? scope name).map (Value.relabel l) := by
  unfold binding? relabel
  rw [Array.getElem?_map]
  cases s.scopes[scope]? with
  | none => rfl
  | some found => exact Table.get?_mapValues _ _ _

theorem bound_relabel (scope : ScopeId) (name : String) :
    ((s.relabel l).binding? scope name).isSome = (s.binding? scope name).isSome := by
  rw [binding?_relabel, Option.isSome_map]

theorem newScope_relabel (bindings : Table Value) (around : Option ScopeId) :
    (s.relabel l).newScope (bindings.mapValues (Value.relabel l)) around =
      ((s.newScope bindings around).1, (s.newScope bindings around).2.relabel l) := by
  simp [newScope, relabel, Scope.relabel]

theorem define_relabel (scope : ScopeId) (name : String) (value : Value) :
    (s.relabel l).define scope name (value.relabel l) = (s.define scope name value).relabel l := by
  have hscope (found : Scope) :
      { found.relabel l with
        bindings := (found.relabel l).bindings.put name (value.relabel l) } =
      Scope.relabel l { found with bindings := found.bindings.put name value } := by
    simp only [Scope.relabel, Table.put_mapValues]
  unfold define relabel
  dsimp only
  rw [modify_map hscope]

theorem defineBuiltins_relabel (scope : ScopeId) :
    (s.relabel l).defineBuiltins scope = (s.defineBuiltins scope).relabel l := by
  unfold defineBuiltins
  induction Builtin.all generalizing s with
  | nil => rfl
  | cons builtin rest ih =>
    have hdefine : (s.relabel l).define scope builtin.name (.builtin builtin) =
        (s.define scope builtin.name (.builtin builtin)).relabel l :=
      define_relabel l s scope builtin.name (.builtin builtin)
    rw [List.foldl_cons, List.foldl_cons, ← ih, ← hdefine]

theorem empty_relabel : ({} : Store).relabel l = {} := by
  simp only [relabel, Array.map_empty]

theorem chainFrom_relabel (fuel : Nat) (scope : ScopeId) :
    (s.relabel l).chainFrom fuel scope = s.chainFrom fuel scope := by
  induction fuel generalizing scope with
  | zero => rfl
  | succ fuel ih =>
    unfold chainFrom
    have hscopes : (s.relabel l).scopes[scope]? = (s.scopes[scope]?).map (Scope.relabel l) :=
      Array.getElem?_map
    rw [hscopes]
    cases s.scopes[scope]? with
    | none => rfl
    | some found =>
      obtain ⟨bindings, around⟩ := found
      cases around with
      | none => rfl
      | some outer => exact congrArg (List.cons scope) (ih outer)

theorem binder?_relabel (scope : ScopeId) (name : String) :
    (s.relabel l).binder? scope name = s.binder? scope name := by
  unfold binder? chain
  simp only [chainFrom_relabel, bound_relabel]

theorem ancestor_relabel (distance : Nat) (scope : ScopeId) :
    (s.relabel l).ancestor distance scope = s.ancestor distance scope := by
  induction distance generalizing scope with
  | zero => rfl
  | succ distance ih =>
    unfold ancestor
    rw [enclosing?_relabel]
    cases s.enclosing? scope with
    | none => rfl
    | some outer => exact ih outer

theorem binderAt?_relabel (scope : ScopeId) (distance : Nat) (name : String) :
    (s.relabel l).binderAt? scope distance name = s.binderAt? scope distance name := by
  unfold binderAt?
  simp only [ancestor_relabel, bound_relabel]

theorem lookupAt?_relabel (scope : ScopeId) (distance : Nat) (name : String) :
    (s.relabel l).lookupAt? scope distance name =
      (s.lookupAt? scope distance name).map (Value.relabel l) := by
  unfold lookupAt?
  rw [binderAt?_relabel]
  cases s.binderAt? scope distance name with
  | none => rfl
  | some outer => exact binding?_relabel l s outer name

/-! ## Lists and instances -/

theorem newList_relabel (items : Array Value) :
    (s.relabel l).newList (items.map (Value.relabel l)) =
      ((s.newList items).1, (s.newList items).2.relabel l) := by
  simp [newList, relabel]

theorem items_relabel (list : ListId) : (s.relabel l).items list = (s.items list).map (Value.relabel l) := by
  unfold items relabel
  rw [Array.getElem?_map]
  cases s.lists[list]? <;> simp

theorem modifyList_relabel (list : ListId) {change change' : Array Value → Array Value}
    (h : ∀ items, change' (items.map (Value.relabel l)) = (change items).map (Value.relabel l)) :
    (s.relabel l).modifyList list change' = (s.modifyList list change).relabel l := by
  unfold modifyList relabel
  dsimp only
  rw [modify_map h]

theorem newInstance_relabel :
    (s.relabel l).newInstance = (s.newInstance.1, s.newInstance.2.relabel l) := by
  simp [newInstance, relabel, Table.mapValues]

theorem field?_relabel (object : InstanceId) (name : String) :
    (s.relabel l).field? object name = (s.field? object name).map (Value.relabel l) := by
  unfold field? relabel
  rw [Array.getElem?_map]
  cases s.instances[object]? with
  | none => rfl
  | some fields => exact Table.get?_mapValues _ _ _

theorem setField_relabel (object : InstanceId) (name : String) (value : Value) :
    (s.relabel l).setField object name (value.relabel l) =
      (s.setField object name value).relabel l := by
  have hfields (fields : Table Value) :
      (fields.mapValues (Value.relabel l)).put name (value.relabel l) =
        (fields.put name value).mapValues (Value.relabel l) := Table.put_mapValues ..
  unfold setField relabel
  dsimp only
  rw [modify_map hfields]

theorem position_relabel (length : Nat) (index : Value) :
    position length (index.relabel l) = position length index := by
  cases index <;> rfl

theorem slicePositions_relabel (length : Nat) (start stop : Value) :
    slicePositions length (start.relabel l) (stop.relabel l) = slicePositions length start stop := by
  cases start <;> cases stop <;> rfl

theorem itemAt_relabel (list : ListId) (index : Value) :
    (s.relabel l).itemAt list (index.relabel l) = (s.itemAt list index).map (Value.relabel l) := by
  unfold itemAt
  dsimp only
  rw [items_relabel, position_relabel, Array.size_map]
  cases position (s.items list).size index with
  | error fault => rfl
  | ok i =>
    change Except.ok _ = Except.ok _
    rw [Array.getElem?_map]
    cases (s.items list)[i]? <;> rfl

theorem setItemAt_relabel (list : ListId) (index value : Value) :
    (s.relabel l).setItemAt list (index.relabel l) (value.relabel l) =
      ((s.setItemAt list index value).1, (s.setItemAt list index value).2.relabel l) := by
  unfold setItemAt
  rw [items_relabel, position_relabel, Array.size_map]
  cases position (s.items list).size index with
  | error fault => rfl
  | ok i =>
    dsimp only
    rw [modifyList_relabel l s list fun items => Array.map_setIfInBounds.symm]

theorem sliceOf_relabel (list : ListId) (start stop : Value) :
    (s.relabel l).sliceOf list (start.relabel l) (stop.relabel l) =
      ((s.sliceOf list start stop).1.map (Value.relabel l), (s.sliceOf list start stop).2.relabel l) := by
  unfold sliceOf
  dsimp only
  rw [items_relabel, slicePositions_relabel, Array.size_map]
  cases slicePositions (s.items list).size start stop with
  | error fault => rfl
  | ok ends =>
    obtain ⟨i, j⟩ := ends
    dsimp only
    rw [← Array.map_extract, newList_relabel]
    rfl

theorem callListMethod_relabel (list : ListId) (method : ListMethod) (arguments : List Value) :
    (s.relabel l).callListMethod list method (arguments.map (Value.relabel l)) =
      ((s.callListMethod list method arguments).1.map (Value.relabel l),
        (s.callListMethod list method arguments).2.relabel l) := by
  cases method <;> rcases arguments with _ | ⟨a, _ | ⟨b, _ | ⟨c, rest⟩⟩⟩
  case push.cons.nil =>
    exact congrArg (Prod.mk _) (modifyList_relabel l s list fun items => Array.map_push.symm)
  case pop.nil =>
    simp only [callListMethod, List.map_nil, items_relabel, Array.back?_map]
    cases (s.items list).back? with
    | none => rfl
    | some last => exact congrArg (Prod.mk _) (modifyList_relabel l s list fun items => Array.map_pop.symm)
  case clear.nil =>
    exact congrArg (Prod.mk _) (modifyList_relabel l s list fun items => Array.map_empty.symm)
  case len.nil =>
    simp only [callListMethod, List.map_nil, items_relabel, Array.size_map]
    rfl
  case getAt.cons.nil => exact congrArg (Prod.mk · _) (itemAt_relabel l s list a)
  case setAt.cons.cons.nil =>
    simp only [callListMethod, List.map_cons, List.map_nil, setItemAt_relabel]
    cases (s.setItemAt list a b).1 <;> rfl
  case slice.cons.cons.nil => exact sliceOf_relabel l s list a b
  all_goals simp [callListMethod, Except.map]

/-! ## Texts -/

theorem walk_map {α β γ σ : Type} {f : α → β} {step : σ → α → Option (γ × σ)}
    {step' : σ → β → Option (γ × σ)} (h : ∀ state a, step' state (f a) = step state a) (state : σ)
    (items : List α) : walk step' state (items.map f) = walk step state items := by
  induction items generalizing state with
  | nil => rfl
  | cons a rest ih =>
    rw [List.map_cons, walk, walk, h]
    simp only [ih]

theorem textInside_relabel (fuel : Nat) (opened : List ListId) (value : Value) :
    (s.relabel l).textInside fuel opened (value.relabel l) = s.textInside fuel opened value := by
  induction fuel generalizing opened value with
  | zero =>
    cases value with
    | list id => rfl
    | _ => exact congrArg (fun text => some (text, opened)) (Value.relabel_plainText l _)
  | succ fuel ih =>
    cases value with
    | list id =>
      simp only [Value.relabel, textInside, items_relabel, Array.toList_map, walk_map ih]
    | _ => exact congrArg (fun text => some (text, opened)) (Value.relabel_plainText l _)

theorem text?_relabel (fuel : Nat) (value : Value) :
    (s.relabel l).text? fuel (value.relabel l) = s.text? fuel value :=
  congrArg (Option.map Prod.fst) (textInside_relabel l s fuel [] value)

end Store

end LoxLang
