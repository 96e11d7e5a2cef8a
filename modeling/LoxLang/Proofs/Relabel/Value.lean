import LoxLang.Proofs.Relabel
import LoxLang.Proofs.Store
import LoxLang.Store.Rendering

/-!
# Values with other lines and identities

A value carries the lines and the identities of the functions in it. No operation on values reads them: each
one does the same when all functions are relabelled.
-/

namespace LoxLang

/-! ## Tables -/

/-- The table with a function applied to all values. -/
def Table.mapValues {α β : Type} (f : α → β) (table : Table α) : Table β :=
  table.map fun entry => (entry.1, f entry.2)

namespace Table
variable {α β : Type} (f : α → β)

theorem get?_mapValues (name : String) (table : Table α) :
    (table.mapValues f).get? name = (table.get? name).map f := by
  induction table with
  | nil => rfl
  | cons entry rest ih =>
    obtain ⟨key, value⟩ := entry
    by_cases h : key = name
    · simp [mapValues, get?, h]
    · simpa [mapValues, get?, h] using ih

theorem put_mapValues (name : String) (value : α) (table : Table α) :
    (table.mapValues f).put name (f value) = (table.put name value).mapValues f := by
  induction table with
  | nil => rfl
  | cons entry rest ih =>
    obtain ⟨key, old⟩ := entry
    by_cases h : key = name
    · simp [mapValues, put, h]
    · simpa [mapValues, put, h] using ih

theorem mapValues_foldl_put {γ : Type} (key : γ → String) (value : γ → α) (entries : List γ) (table : Table α) :
    (entries.foldl (fun table entry => table.put (key entry) (value entry)) table).mapValues f =
      entries.foldl (fun table entry => table.put (key entry) (f (value entry))) (table.mapValues f) := by
  induction entries generalizing table with
  | nil => rfl
  | cons entry rest ih => rw [List.foldl_cons, List.foldl_cons, ih, put_mapValues]

end Table

/-! ## Values -/

def Closure.relabel (l : Relabelling) (c : Closure) : Closure :=
  { c with declaration := c.declaration.relabel l }

mutual

@[simp] def ClassObject.relabel (l : Relabelling) : ClassObject → ClassObject
  | ⟨id, name, superclass, methods⟩ =>
    ⟨id, name, relabelExtended l superclass, methods.mapValues (Closure.relabel l)⟩

@[simp] def relabelExtended (l : Relabelling) : Option ClassObject → Option ClassObject
  | some c => some (c.relabel l)
  | none => none

end

/-- The value with all of its functions relabelled. -/
@[simp] def Value.relabel (l : Relabelling) : Value → Value
  | .function id closure => .function id (closure.relabel l)
  | .classObject c => .classObject (c.relabel l)
  | .instanceOf id c => .instanceOf id (c.relabel l)
  | value => value

section
variable (l : Relabelling)

@[simp] theorem FunctionDecl.relabel_name (f : FunctionDecl) :
    (f.relabel l).name = f.name.relabel l := by cases f; rfl

@[simp] theorem FunctionDecl.relabel_params (f : FunctionDecl) :
    (f.relabel l).params = relabelNames l f.params := by cases f; rfl

@[simp] theorem Closure.relabel_arity (c : Closure) : (c.relabel l).arity = c.arity := by
  simp [Closure.arity, Closure.relabel]

@[simp] theorem ClassObject.relabel_name (c : ClassObject) : (c.relabel l).name = c.name := by
  cases c
  rfl

@[simp] theorem ClassObject.relabel_identity (c : ClassObject) : (c.relabel l).id = c.id := by
  cases c
  rfl

mutual

theorem ClassObject.method?_relabel (name : String) : (c : ClassObject) →
    (c.relabel l).method? name = (c.method? name).map (Closure.relabel l)
  | ⟨id, class_, superclass, methods⟩ => by
    unfold ClassObject.relabel ClassObject.method?
    rw [Table.get?_mapValues, inheritedMethod?_relabel name superclass]
    cases methods.get? name <;> rfl

theorem inheritedMethod?_relabel (name : String) : (o : Option ClassObject) →
    ClassObject.inheritedMethod? name (relabelExtended l o) =
      (ClassObject.inheritedMethod? name o).map (Closure.relabel l)
  | some c => c.method?_relabel name
  | none => rfl

end

@[simp] theorem ClassObject.relabel_arity (c : ClassObject) : (c.relabel l).arity = c.arity := by
  unfold ClassObject.arity
  rw [method?_relabel]
  cases c.method? initializerName with
  | none => rfl
  | some initializer => exact initializer.relabel_arity l

namespace Value

theorem CodeFree.relabel {value : Value} (h : value.CodeFree) : value.relabel l = value := by
  cases value with
  | function | classObject | instanceOf => cases h
  | _ => rfl

@[simp] theorem relabel_isTruthy (value : Value) : (value.relabel l).isTruthy = value.isTruthy := by
  cases value <;> rfl

theorem relabel_equals (left right : Value) :
    (left.relabel l).equals (right.relabel l) = left.equals right := by
  cases left <;> cases right <;> simp [equals]

@[simp] theorem relabel_plainText (value : Value) : (value.relabel l).plainText = value.plainText := by
  cases value with
  | function id closure =>
    have hname : (closure.relabel l).declaration.name.text = closure.declaration.name.text := by
      rw [Closure.relabel, FunctionDecl.relabel_name, Name.relabel]
    exact congrArg (fun name => "<fun " ++ name ++ ">") hname
  | classObject c => exact congrArg (fun name => "<class " ++ name ++ ">") (c.relabel_name l)
  | instanceOf id c => exact congrArg (fun name => name ++ " instance") (c.relabel_name l)
  | _ => simp only [relabel]

@[simp] theorem relabel_typeText (value : Value) : (value.relabel l).typeText = value.typeText := by
  have hplain := relabel_plainText l value
  cases value with
  | function | classObject => exact hplain
  | instanceOf => exact congrArg (fun text => "<" ++ text ++ ">") hplain
  | _ => simp only [relabel]

theorem relabel_toInteger (value : Value) : (value.relabel l).toInteger = value.toInteger := by
  cases value with
  | function | classObject | instanceOf => simp only [relabel, toInteger]
  | _ => simp only [relabel]

theorem relabel_toFloating (value : Value) : (value.relabel l).toFloating = value.toFloating := by
  cases value with
  | function | classObject | instanceOf => simp only [relabel, toFloating]
  | _ => simp only [relabel]

end Value

/-! ## Relabelling twice, or keeping all labels -/

theorem Table.mapValues_mapValues {α β γ : Type} (f : α → β) (g : β → γ) (table : Table α) :
    (table.mapValues f).mapValues g = table.mapValues (g ∘ f) := List.map_map ..

theorem Table.mapValues_id {α : Type} (table : Table α) : table.mapValues id = table := List.map_id _

section
variable (again : Relabelling)

theorem Closure.relabel_relabel (c : Closure) :
    (c.relabel l).relabel again = c.relabel (l.andThen again) := by
  have hdeclaration := c.declaration.relabel_relabel (.refl : (l.andThen again).Agree (l.andThen again) _)
  exact congrArg (Closure.mk · c.scope c.isInitializer) hdeclaration

theorem closure_relabel_comp :
    Closure.relabel again ∘ Closure.relabel l = Closure.relabel (l.andThen again) :=
  funext (Closure.relabel_relabel l again)

mutual

theorem ClassObject.relabel_relabel : (c : ClassObject) →
    (c.relabel l).relabel again = c.relabel (l.andThen again)
  | ⟨id, name, superclass, methods⟩ => by
    simp only [ClassObject.relabel, relabelExtended_relabelExtended superclass,
      Table.mapValues_mapValues, closure_relabel_comp]

theorem relabelExtended_relabelExtended : (o : Option ClassObject) →
    relabelExtended again (relabelExtended l o) = relabelExtended (l.andThen again) o
  | some c => congrArg some c.relabel_relabel
  | none => rfl

end

theorem Value.relabel_relabel (value : Value) :
    (value.relabel l).relabel again = value.relabel (l.andThen again) := by
  cases value with
  | function id closure => exact congrArg (Value.function id) (closure.relabel_relabel l again)
  | classObject c => exact congrArg Value.classObject (c.relabel_relabel l again)
  | instanceOf id c => exact congrArg (Value.instanceOf id) (c.relabel_relabel l again)
  | _ => rfl

end

theorem Closure.relabel_same : Closure.relabel .same = id := by
  funext c
  rw [Closure.relabel, FunctionDecl.relabel_same]
  rfl

mutual

theorem classObject_relabel_same : (c : ClassObject) → c.relabel .same = c
  | ⟨id, name, superclass, methods⟩ => by
    simp only [ClassObject.relabel, relabelExtended_same superclass, Closure.relabel_same, Table.mapValues_id]

theorem relabelExtended_same : (o : Option ClassObject) → relabelExtended .same o = o
  | some c => congrArg some (classObject_relabel_same c)
  | none => rfl

end

theorem Value.relabel_same : Value.relabel .same = id := by
  funext value
  cases value with
  | function i closure =>
    rw [Value.relabel, Closure.relabel_same]
    rfl
  | classObject c => exact congrArg Value.classObject (classObject_relabel_same c)
  | instanceOf i c => exact congrArg (Value.instanceOf i) (classObject_relabel_same c)
  | _ => rfl

/-! ## Operators -/

open Arithmetic

theorem numbers_relabel (left right : Value) :
    numbers (left.relabel l) (right.relabel l) = numbers left right := by
  cases left <;> cases right <;> rfl

theorem integers_relabel (left right : Value) :
    integers (left.relabel l) (right.relabel l) = integers left right := by
  cases left <;> cases right <;> rfl

theorem sum_relabel (left right : Value) : sum (left.relabel l) (right.relabel l) = sum left right := by
  cases left <;> cases right <;> rfl

theorem UnaryOperator.apply_relabel (operator : UnaryOperator) (value : Value) :
    operator.apply (value.relabel l) = operator.apply value := by
  cases operator with
  | not => rw [apply, apply, Value.relabel_isTruthy]
  | _ => cases value <;> rfl

theorem BinaryOperator.apply_relabel (operator : BinaryOperator) (left right : Value) :
    operator.apply (left.relabel l) (right.relabel l) = operator.apply left right := by
  have hn := numbers_relabel l left right
  have hi := integers_relabel l left right
  cases operator with
  | add => exact sum_relabel l left right
  | subtract | multiply => simp only [apply, arithmetic, hn]
  | divide | modulo => simp only [apply, quotient, hn]
  | power => simp only [apply, Arithmetic.power, hn]
  | equal | notEqual => simp only [apply, Value.relabel_equals]
  | less | lessEqual | greater | greaterEqual => simp only [apply, comparison, hn]
  | bitOr | bitXor | bitAnd | shiftLeft | shiftRight => simp only [apply, bitwise, hi]

end

end LoxLang
