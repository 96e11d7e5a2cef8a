import LoxLang.Proofs.Renaming
import LoxLang.Proofs.Simulation
import LoxLang.Proofs.Value

/-!
# Values in a run of the renamed program

A value that holds code corresponds to one in the run of the renamed program: to a function with names
exchanged according to where the scope lies that it closes over. This place is fixed when the scope is
opened, and a world lists it for every scope there is. Worlds only grow, and values that correspond in a
world do so in each later one.
-/

namespace LoxLang

variable {ρ : Renaming}

/-- The nesting of each scope in a store, by its number. -/
abbrev World := List Nesting

namespace World

/-- The later world lists further scopes. -/
abbrev Grows (w later : World) : Prop := w <+: later

theorem Grows.nesting {w later : World} (h : w.Grows later) {scope : ScopeId} {n : Nesting}
    (hn : w[scope]? = some n) : later[scope]? = some n := by
  obtain ⟨more, rfl⟩ := h
  rwa [List.getElem?_append_left (List.getElem?_eq_some_iff.1 hn).1]

/-- The nesting of a new scope. -/
theorem nesting_new (w : World) (n : Nesting) : (w ++ [n])[w.length]? = some n := by simp

theorem lt_length {w : World} {scope : ScopeId} {n : Nesting} (h : w[scope]? = some n) : scope < w.length :=
  (List.getElem?_eq_some_iff.1 h).1

end World

variable {w later : World}

/-! ## Code -/

/-- The second closure has the code of the first one with names exchanged, as far as its nesting tells. -/
structure CodesMatch (ρ : Renaming) (nesting? : Option Nesting) (c c' : Closure) : Prop where
  scope : c'.scope = c.scope
  isInitializer : c'.isInitializer = c.isInitializer
  code : ∃ n, nesting? = some n ∧ FunctionRenamed ρ n c.declaration c'.declaration

/-- A closure that can be called: its code stands in the scope that it closes over. -/
abbrev ClosuresMatch (ρ : Renaming) (w : World) (c c' : Closure) : Prop := CodesMatch ρ w[c.scope]? c c'

/-- A method that is not bound: between its code and the scope there will be one that binds `this`. -/
abbrev MethodsMatch (ρ : Renaming) (w : World) (c c' : Closure) : Prop :=
  CodesMatch ρ (w[c.scope]?.map Nesting.inner) c c'

structure ClassesMatch (ρ : Renaming) (w : World) (c c' : ClassObject) : Prop where
  id : c'.id = c.id
  name : c'.name = c.name
  method : ∀ name, Option.Rel (MethodsMatch ρ w) (c.method? name) (c'.method? name)

/-- The values are the same but for code, which has names exchanged in the second one. -/
inductive ValuesMatch (ρ : Renaming) (w : World) : Value → Value → Prop
  | codeFree {v : Value} : v.CodeFree → ValuesMatch ρ w v v
  | function {id : Identity} {c c' : Closure} :
      ClosuresMatch ρ w c c' → ValuesMatch ρ w (.function id c) (.function id c')
  | classObject {c c' : ClassObject} :
      ClassesMatch ρ w c c' → ValuesMatch ρ w (.classObject c) (.classObject c')
  | instanceOf {id : InstanceId} {c c' : ClassObject} :
      ClassesMatch ρ w c c' → ValuesMatch ρ w (.instanceOf id c) (.instanceOf id c')

abbrev ArgumentsMatch (ρ : Renaming) (w : World) : List Value → List Value → Prop :=
  List.Forall₂ (ValuesMatch ρ w)

/-! ## Later worlds -/

section Grows
variable (hw : w.Grows later)
include hw

theorem ClosuresMatch.grow {c c' : Closure} (h : ClosuresMatch ρ w c c') : ClosuresMatch ρ later c c' := by
  obtain ⟨n, hn, hcode⟩ := h.code
  exact ⟨h.scope, h.isInitializer, n, hw.nesting hn, hcode⟩

theorem MethodsMatch.grow {c c' : Closure} (h : MethodsMatch ρ w c c') : MethodsMatch ρ later c c' := by
  obtain ⟨n, hn, hcode⟩ := h.code
  obtain ⟨k, hk, rfl⟩ := Option.map_eq_some_iff.1 hn
  exact ⟨h.scope, h.isInitializer, k.inner, by rw [hw.nesting hk]; rfl, hcode⟩

theorem ClassesMatch.grow {c c' : ClassObject} (h : ClassesMatch ρ w c c') : ClassesMatch ρ later c c' :=
  ⟨h.id, h.name, fun name => optionRel_imp (fun _ _ => MethodsMatch.grow hw) (h.method name)⟩

theorem ValuesMatch.grow {v v' : Value} (h : ValuesMatch ρ w v v') : ValuesMatch ρ later v v' := by
  cases h with
  | codeFree hv => exact .codeFree hv
  | function hc => exact .function (ClosuresMatch.grow hw hc)
  | classObject hc => exact .classObject (hc.grow hw)
  | instanceOf hc => exact .instanceOf (hc.grow hw)

end Grows

/-! ## What is the same of values that correspond -/

theorem valuesMatch_nil : ValuesMatch ρ w .nil .nil := .codeFree trivial

theorem FunctionRenamed.arity {n : Nesting} {f f' : FunctionDecl} (h : FunctionRenamed ρ n f f') :
    f'.params.length = f.params.length := by
  cases h
  exact List.length_map _

theorem FunctionRenamed.declared_name {n : Nesting} {f f' : FunctionDecl} (h : FunctionRenamed ρ n f f') :
    f'.name = f.name := by
  cases h
  rfl

theorem CodesMatch.arity {nesting? : Option Nesting} {c c' : Closure} (h : CodesMatch ρ nesting? c c') :
    c'.arity = c.arity := by
  obtain ⟨n, -, hcode⟩ := h.code
  exact hcode.arity

theorem ClassesMatch.arity {c c' : ClassObject} (h : ClassesMatch ρ w c c') : c'.arity = c.arity := by
  unfold ClassObject.arity
  have hm := h.method initializerName
  generalize c.method? initializerName = found, c'.method? initializerName = found' at hm
  cases hm with
  | none => rfl
  | some hm => exact hm.arity

namespace ValuesMatch
variable {v v' u u' : Value}

theorem isTruthy (h : ValuesMatch ρ w v v') : v'.isTruthy = v.isTruthy := by
  cases h <;> rfl

theorem plainText (h : ValuesMatch ρ w v v') : v'.plainText = v.plainText := by
  cases h with
  | codeFree => rfl
  | function hc =>
    obtain ⟨n, -, hcode⟩ := hc.code
    exact congrArg (fun name : Name => "<fun " ++ name.text ++ ">") hcode.declared_name
  | classObject hc => exact congrArg (fun name => "<class " ++ name ++ ">") hc.name
  | instanceOf hc => exact congrArg (fun name => name ++ " instance") hc.name

theorem typeText (h : ValuesMatch ρ w v v') : v'.typeText = v.typeText := by
  have hplain := h.plainText
  cases h with
  | codeFree => rfl
  | function => exact hplain
  | classObject => exact hplain
  | instanceOf => exact congrArg (fun text => "<" ++ text ++ ">") hplain

theorem toInteger (h : ValuesMatch ρ w v v') : v'.toInteger = v.toInteger := by
  cases h <;> rfl

theorem toFloating (h : ValuesMatch ρ w v v') : v'.toFloating = v.toFloating := by
  cases h <;> rfl

theorem equals (hv : ValuesMatch ρ w v v') (hu : ValuesMatch ρ w u u') : v'.equals u' = v.equals u := by
  cases hv with
  | codeFree hf =>
    cases hu with
    | codeFree => rfl
    | _ => cases v <;> first | rfl | cases hf
  | classObject hc =>
    cases hu with
    | codeFree hf => cases u <;> first | rfl | cases hf
    | classObject hd => simp only [Value.equals, hc.id, hd.id]
    | _ => rfl
  | _ =>
    cases hu with
    | codeFree => cases u <;> rfl
    | _ => rfl

open Arithmetic

theorem numbers (hv : ValuesMatch ρ w v v') (hu : ValuesMatch ρ w u u') :
    Arithmetic.numbers v' u' = Arithmetic.numbers v u := by
  cases hv <;> cases hu <;> first | rfl | (cases v <;> rfl)

theorem integers (hv : ValuesMatch ρ w v v') (hu : ValuesMatch ρ w u u') :
    Arithmetic.integers v' u' = Arithmetic.integers v u := by
  cases hv <;> cases hu <;> first | rfl | (cases v <;> rfl)

theorem sum (hv : ValuesMatch ρ w v v') (hu : ValuesMatch ρ w u u') :
    Arithmetic.sum v' u' = Arithmetic.sum v u := by
  cases hv <;> cases hu <;> first | rfl | (cases v <;> rfl) | (cases u <;> rfl)

theorem unary (operator : UnaryOperator) (hv : ValuesMatch ρ w v v') :
    operator.apply v' = operator.apply v := by
  cases operator with
  | not => rw [UnaryOperator.apply, UnaryOperator.apply, hv.isTruthy]
  | _ => cases hv <;> rfl

theorem binary (operator : BinaryOperator) (hv : ValuesMatch ρ w v v') (hu : ValuesMatch ρ w u u') :
    operator.apply v' u' = operator.apply v u := by
  have hn := hv.numbers hu
  have hi := hv.integers hu
  cases operator with
  | add => exact hv.sum hu
  | subtract | multiply => simp only [BinaryOperator.apply, arithmetic, hn]
  | divide | modulo => simp only [BinaryOperator.apply, quotient, hn]
  | power => simp only [BinaryOperator.apply, Arithmetic.power, hn]
  | equal | notEqual => simp only [BinaryOperator.apply, hv.equals hu]
  | less | lessEqual | greater | greaterEqual => simp only [BinaryOperator.apply, comparison, hn]
  | bitOr | bitXor | bitAnd | shiftLeft | shiftRight => simp only [BinaryOperator.apply, bitwise, hi]

end ValuesMatch

end LoxLang
