import LoxLang.Decimal.Notation
import LoxLang.Store

/-!
# The text of a value

Values as they are printed. A list is written with its items between brackets. While its items are being
written the list is open; where an open list occurs again, dots are written in its place, and that list is
open no longer, so that its next occurrence is written out.

Writing takes fuel, one unit for each list inside another. A list that holds itself twice is written out
again and again inside itself: it has no text, whatever the fuel.
-/

namespace LoxLang

/-- The text of a callable value or an instance, or of a value without parts; lists have none here. -/
def Value.plainText : Value → String
  | .int n => toString n.toInt
  | .float x => Decimal.plain "" x
  | .string text => text
  | .bool value => if value then "true" else "false"
  | .nil => "nil"
  | .function _ closure => "<fun " ++ closure.declaration.name.text ++ ">"
  | .builtin f => "<native function: " ++ f.name ++ ">"
  | .classObject c => "<class " ++ c.name ++ ">"
  | .instanceOf _ c => c.name ++ " instance"
  | .listMethod _ method => "<native function: " ++ method.name ++ ">"
  | .list _ => ""

/-- The text that stands for a list inside itself. -/
def insideItself : String := "[...]"

/-- Texts between brackets. -/
def listText (parts : List String) : String := "[" ++ String.intercalate "," parts ++ "]"

/-- The results of a step on the items of a list, from left to right, with a state passed along. -/
def walk {α β σ : Type} (step : σ → α → Option (β × σ)) : σ → List α → Option (List β × σ)
  | state, [] => some ([], state)
  | state, a :: rest => do
    let (b, state) ← step state a
    let (bs, state) ← walk step state rest
    some (b :: bs, state)

/-- The text of a value while the lists `opened` are open, and the lists that are open after it. -/
def Store.textInside (s : Store) : Nat → List ListId → Value → Option (String × List ListId)
  | fuel, opened, .list id =>
    if opened.contains id then some (insideItself, opened.erase id)
    else
      match fuel with
      | 0 => none
      | fuel + 1 => do
        let (parts, opened) ← walk (s.textInside fuel) (id :: opened) (s.items id).toList
        some (listText parts, opened.erase id)
  | _, opened, value => some (value.plainText, opened)

/-- A list that is open is not written out again, whatever the fuel. -/
theorem Store.textInside_opened (s : Store) (fuel : Nat) {opened : List ListId} {id : ListId}
    (h : opened.contains id = true) :
    s.textInside fuel opened (.list id) = some (insideItself, opened.erase id) := by
  cases fuel <;> simp only [Store.textInside, h, if_true]

theorem Store.textInside_plain (s : Store) (fuel : Nat) (opened : List ListId) {value : Value}
    (h : ∀ id, value ≠ .list id) : s.textInside fuel opened value = some (value.plainText, opened) := by
  cases value with
  | list id => exact absurd rfl (h id)
  | _ => cases fuel <;> rfl

/-- The text of a value, if the fuel lasts. -/
def Store.text? (s : Store) (fuel : Nat) (value : Value) : Option String :=
  (s.textInside fuel [] value).map Prod.fst

/-- The text of the type of a value. A callable value is its own type. -/
def Value.typeText : Value → String
  | .int _ => "<int>"
  | .float _ => "<float>"
  | .string _ => "<str>"
  | .bool _ => "<bool>"
  | .nil => "<nil>"
  | .list _ => "<list>"
  | .instanceOf id c => "<" ++ (Value.instanceOf id c).plainText ++ ">"
  | value => value.plainText

end LoxLang
