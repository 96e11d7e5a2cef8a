import LoxLang.Console
import LoxLang.Store.Sequence
import LoxLang.Value.Arithmetic
import LoxLang.Value.Conversion

/-!
# Faults about `this` and `super`

Operators, conversions, lists and the console end in faults of their own, but never because `this` or `super`
is missing or is bound to something else than it should be.
-/

namespace LoxLang

/-- The name of a binding that only scopes for methods have. -/
def Reserved (name : String) : Prop := name = "this" ∨ name = "super"

/-- The fault does not say that `this` or `super` is missing or wrongly bound. -/
def Fault.Ordinary : Fault → Prop
  | .undefinedVariable name => ¬ Reserved name
  | .inheritedNotBound => False
  | _ => True

/-- The texts of the faults about `this` and `super`. -/
def bindingFaultMessages : List String :=
  ["Undefined variable 'this'.", "Undefined variable 'super'.", "Invalid 'super' binding."]

section
variable {fault : Fault}

namespace Arithmetic
variable {left right : Value}

theorem numbers_fault (h : numbers left right = .error fault) : fault.Ordinary := by
  unfold numbers at h
  split at h <;> cases h
  trivial

theorem integers_fault (h : integers left right = .error fault) : fault.Ordinary := by
  unfold integers at h
  split at h <;> cases h
  trivial

theorem arithmetic_fault {ints : Int64 → Int64 → Int64} {floats : Float → Float → Float}
    (h : arithmetic ints floats left right = .error fault) : fault.Ordinary := by
  unfold arithmetic at h
  rcases hboth : numbers left right with _ | ⟨a, b⟩ | ⟨a, b⟩ <;> rw [hboth] at h <;> cases h
  exact numbers_fault hboth

theorem quotient_fault {ints : Int64 → Int64 → Int64} {floats : Float → Float → Float}
    (h : quotient ints floats left right = .error fault) : fault.Ordinary := by
  unfold quotient at h
  rcases hboth : numbers left right with _ | ⟨a, b⟩ | ⟨a, b⟩ <;> rw [hboth] at h
  · cases h
    exact numbers_fault hboth
  · change (if b = 0 then _ else _) = _ at h
    split at h <;> cases h
    trivial
  · change (if (b == 0.0) = true then _ else _) = _ at h
    split at h <;> cases h
    trivial

theorem comparison_fault {ints : Int64 → Int64 → Bool} {floats : Float → Float → Bool}
    (h : comparison ints floats left right = .error fault) : fault.Ordinary := by
  unfold comparison at h
  rcases hboth : numbers left right with _ | ⟨a, b⟩ | ⟨a, b⟩ <;> rw [hboth] at h <;> cases h
  exact numbers_fault hboth

theorem bitwise_fault {ints : Int64 → Int64 → Int64}
    (h : bitwise ints left right = .error fault) : fault.Ordinary := by
  unfold bitwise at h
  rcases hboth : integers left right with _ | ⟨a, b⟩ <;> rw [hboth] at h <;> cases h
  exact integers_fault hboth

theorem power_fault (h : power left right = .error fault) : fault.Ordinary := by
  unfold power at h
  rcases hboth : numbers left right with _ | ⟨a, b⟩ | ⟨a, b⟩ <;> rw [hboth] at h
  · cases h
    exact numbers_fault hboth
  · change (if b < 0 then _ else _) = _ at h
    split at h <;> cases h
  · cases h

theorem sum_fault (h : sum left right = .error fault) : fault.Ordinary := by
  unfold sum at h
  split at h
  · cases h
  · cases h
    trivial
  · cases h
    trivial
  · exact arithmetic_fault h

end Arithmetic

open Arithmetic

theorem UnaryOperator.apply_fault {operator : UnaryOperator} {right : Value}
    (h : operator.apply right = .error fault) : fault.Ordinary := by
  unfold UnaryOperator.apply at h
  split at h <;> cases h <;> trivial

theorem BinaryOperator.apply_fault {operator : BinaryOperator} {left right : Value}
    (h : operator.apply left right = .error fault) : fault.Ordinary := by
  cases operator with
  | add => exact sum_fault h
  | subtract | multiply => exact arithmetic_fault h
  | divide | modulo => exact quotient_fault h
  | power => exact power_fault h
  | equal | notEqual => cases h
  | less | lessEqual | greater | greaterEqual => exact comparison_fault h
  | bitOr | bitXor | bitAnd | shiftLeft | shiftRight => exact bitwise_fault h

theorem Value.toInteger_fault {v : Value} (h : v.toInteger = .error fault) : fault.Ordinary := by
  unfold Value.toInteger at h
  split at h
  · cases h
  · split at h <;> cases h
    trivial
  · split at h <;> cases h
    trivial
  · cases h
    trivial

theorem Value.toFloating_fault {v : Value} (h : v.toFloating = .error fault) : fault.Ordinary := by
  unfold Value.toFloating at h
  split at h
  · cases h
  · cases h
  · split at h <;> cases h
    trivial
  · cases h
    trivial

/-! ## Lists and the console -/

theorem position_fault {length : Nat} {index : Value} (h : position length index = .error fault) :
    fault.Ordinary := by
  unfold position at h
  split at h
  · split at h <;> cases h
    trivial
  · cases h
    trivial

theorem slicePositions_fault {length : Nat} {start stop : Value}
    (h : slicePositions length start stop = .error fault) : fault.Ordinary := by
  unfold slicePositions at h
  split at h
  · dsimp only at h
    split at h
    · cases h
      trivial
    · split at h <;> cases h
      trivial
  · cases h
    trivial

namespace Store
variable {s : Store} {list : ListId}

theorem itemAt_fault {index : Value} (h : s.itemAt list index = .error fault) : fault.Ordinary := by
  unfold itemAt at h
  dsimp only at h
  rcases hposition : position (s.items list).size index with _ | i
  · rw [hposition] at h
    cases h
    exact position_fault hposition
  · rw [hposition] at h
    cases h

theorem setItemAt_fault {index value : Value} (h : (s.setItemAt list index value).1 = .error fault) :
    fault.Ordinary := by
  unfold setItemAt at h
  split at h
  · cases h
  · rename_i hposition
    cases h
    exact position_fault hposition

theorem sliceOf_fault {start stop : Value} (h : (s.sliceOf list start stop).1 = .error fault) :
    fault.Ordinary := by
  unfold sliceOf at h
  dsimp only at h
  split at h
  · cases h
  · rename_i hpositions
    cases h
    exact slicePositions_fault hpositions

theorem callListMethod_fault {method : ListMethod} {arguments : List Value}
    (h : (s.callListMethod list method arguments).1 = .error fault) : fault.Ordinary := by
  unfold callListMethod at h
  split at h
  · cases h
  · split at h <;> cases h
    trivial
  · cases h
  · cases h
  · exact itemAt_fault h
  · rename_i index value
    dsimp only at h
    rcases hset : (s.setItemAt list index value).1 with _ | _ <;> rw [hset] at h <;> cases h
    exact setItemAt_fault hset
  · exact sliceOf_fault h
  · cases h
    trivial

end Store

namespace Console
variable {c : Console}

theorem write_fault {text : String} (h : (c.write text).1 = .error fault) : fault.Ordinary := by
  unfold write at h
  split at h <;> cases h
  trivial

theorem readLine_fault (h : c.readLine.1 = .error fault) : fault.Ordinary := by
  unfold readLine at h
  split at h
  · cases h
  · dsimp only at h
    split at h <;> cases h
    trivial

end Console

end

/-! ## Texts -/

theorem append_ne {front text whole : String} (h : ¬ front.toList <+: whole.toList) :
    front ++ text ≠ whole := by
  rintro rfl
  rw [String.toList_append] at h
  exact h (List.prefix_append _ _)

theorem undefinedVariable_inj {name key : String}
    (h : (Fault.undefinedVariable name).message = (Fault.undefinedVariable key).message) : name = key := by
  have hlist : ("Undefined variable '" ++ name ++ "'.").toList =
      ("Undefined variable '" ++ key ++ "'.").toList := congrArg String.toList h
  simp only [String.toList_append] at hlist
  exact String.toList_inj.1 (List.append_cancel_left (List.append_cancel_right hlist))

/-- No other fault has one of the texts about `this` and `super`. -/
theorem Fault.Ordinary.message {fault : Fault} (h : fault.Ordinary) :
    fault.message ∉ bindingFaultMessages := by
  have hfront : ∀ {front text : String},
      (bindingFaultMessages.all fun whole => !front.toList.isPrefixOf whole.toList) = true →
      front ++ text ∉ bindingFaultMessages := by
    intro front text hall hm
    have hwhole := List.all_eq_true.1 hall _ hm
    rw [Bool.not_eq_true', ← Bool.not_eq_true, List.isPrefixOf_iff_prefix] at hwhole
    exact append_ne hwhole rfl
  cases fault with
  | undefinedVariable name =>
    intro hm
    simp only [bindingFaultMessages, List.mem_cons, List.not_mem_nil, or_false] at hm
    rcases hm with hm | hm | hm
    · exact h (.inl (undefinedVariable_inj hm))
    · exact h (.inr (undefinedVariable_inj hm))
    · have hne : ¬ "Undefined variable '".toList <+: "Invalid 'super' binding.".toList := by decide
      change "Undefined variable '" ++ name ++ "'." = _ at hm
      rw [String.append_assoc] at hm
      exact append_ne hne hm
  | inheritedNotBound => exact absurd h id
  | undefinedProperty name =>
    change "Undefined property '" ++ name ++ "'." ∉ _
    rw [String.append_assoc]
    exact hfront (by decide)
  | argumentCount expected found =>
    change "Expected " ++ toString expected ++ " arguments but got " ++ toString found ++ "." ∉ _
    simp only [String.append_assoc]
    exact hfront (by decide)
  | indexOutOfRange index =>
    change "Index " ++ toString index.toInt ++ " is out of range." ∉ _
    rw [String.append_assoc]
    exact hfront (by decide)
  | _ => decide

end LoxLang
