import LoxLang.Fault
import LoxLang.Store

/-!
# Lists as sequences

Access to the items of a list, and the methods of lists. An index is an integer from zero up to, but not
including, the length. A slice takes the items from its first index up to, but not including, its second;
it must not be empty. An operation that faults leaves every list as it was.
-/

namespace LoxLang

/-- The position that an index denotes in a list of this length. -/
def position (length : Nat) : Value → Except Fault Nat
  | .int i =>
    if 0 ≤ i.toInt ∧ i.toInt.toNat < length then .ok i.toInt.toNat else .error (.indexOutOfRange i)
  | _ => .error .indexNotInteger

/-- The positions at which a slice of a list of this length begins and ends. -/
def slicePositions (length : Nat) : Value → Value → Except Fault (Nat × Nat)
  | .int start, .int stop =>
    let i := start.toInt
    let j := stop.toInt
    if i < 0 ∨ (length : Int) ≤ i ∨ j < 0 ∨ (length : Int) < j then .error .sliceOutOfRange
    else if j ≤ i then .error .sliceEmpty
    else .ok (i.toNat, j.toNat)
  | _, _ => .error .sliceNotIntegers

namespace Store

/-- The item of a list at an index. -/
def itemAt (s : Store) (list : ListId) (index : Value) : Except Fault Value := do
  let items := s.items list
  let i ← position items.size index
  .ok (items[i]?.getD .nil)

/-- Replaces the item of a list at an index. -/
def setItemAt (s : Store) (list : ListId) (index value : Value) : Except Fault Unit × Store :=
  match position (s.items list).size index with
  | .ok i => (.ok (), s.modifyList list fun items => items.setIfInBounds i value)
  | .error fault => (.error fault, s)

/-- A new list with the items of a slice. -/
def sliceOf (s : Store) (list : ListId) (start stop : Value) : Except Fault Value × Store :=
  let items := s.items list
  match slicePositions items.size start stop with
  | .ok (i, j) =>
    let (id, s) := s.newList (items.extract i j)
    (.ok (.list id), s)
  | .error fault => (.error fault, s)

/-- Calls a method of a list. -/
def callListMethod (s : Store) (list : ListId) (method : ListMethod) (arguments : List Value) :
    Except Fault Value × Store :=
  match method, arguments with
  | .push, [value] => (.ok .nil, s.modifyList list fun items => items.push value)
  | .pop, [] =>
    match (s.items list).back? with
    | some last => (.ok last, s.modifyList list Array.pop)
    | none => (.error .listEmpty, s)
  | .clear, [] => (.ok .nil, s.modifyList list fun _ => #[])
  | .len, [] => (.ok (.int (Int64.ofNat (s.items list).size)), s)
  | .getAt, [index] => (s.itemAt list index, s)
  | .setAt, [index, value] =>
    let (result, s) := s.setItemAt list index value
    (result.map fun _ => .nil, s)
  | .slice, [start, stop] => s.sliceOf list start stop
  | method, arguments => (.error (.argumentCount method.arity arguments.length), s)

end Store

end LoxLang
