import LoxLang.Proofs.Assignment

/-!
# Lists as sequences

What lists are for somebody who does not look into the store: every list has an identity, and a finite
sequence of values belongs to it. An operation reads a sequence, replaces it as a whole, or begins a new one;
or it complains, and then all sequences are as they were. This is written down here in terms of sequences
alone, with the kinds and the words of the complaints, and the store is shown to do the same.
-/

namespace LoxLang

/-! ## Operations -/

/-- What is done with a list: one of its methods is called, it is called itself as in `xs[i]` or `xs(i)`, or an
item is replaced as in `xs[i] = v`. -/
inductive ListAction where
  | method (method : ListMethod) (arguments : List Value)
  | item (arguments : List Value)
  | setItem (index value : Value)

structure ListOperation where
  list : ListId
  action : ListAction

/-- What is wrong with an operation, by kind and in words. -/
structure Complaint where
  kind : FaultKind
  message : String
deriving DecidableEq, Repr

/-- What an operation makes of a sequence. -/
inductive Edit where
  /-- The sequence stays. -/
  | keep (answer : Value)
  | replace (answer : Value) (items : List Value)
  /-- The sequence stays, and the answer is a new list with these items. -/
  | fresh (items : List Value)

namespace Edit

/-! ### Numbers of arguments -/

def miscounted (expected : Nat) (arguments : List Value) : Except Complaint Edit :=
  .error ⟨.arity, "Expected " ++ toString expected ++ " arguments but got " ++
    toString arguments.length ++ "."⟩

def nullary (edit : Except Complaint Edit) : List Value → Except Complaint Edit
  | [] => edit
  | arguments => miscounted 0 arguments

def unary (edit : Value → Except Complaint Edit) : List Value → Except Complaint Edit
  | [value] => edit value
  | arguments => miscounted 1 arguments

def binary (edit : Value → Value → Except Complaint Edit) : List Value → Except Complaint Edit
  | [first, second] => edit first second
  | arguments => miscounted 2 arguments

/-! ### Edits of a sequence -/

section
variable (items : List Value)

theorem toNat_lt_length {i : Int} (h : 0 ≤ i ∧ i < items.length) : i.toNat < items.length := by omega

/-- The place that an index denotes. -/
def place : Value → Except Complaint (Fin items.length)
  | .int i =>
    if h : 0 ≤ i.toInt ∧ i.toInt < items.length then .ok ⟨i.toInt.toNat, toNat_lt_length items h⟩
    else .error ⟨.index, "Index " ++ toString i.toInt ++ " is out of range."⟩
  | _ => .error ⟨.type, "Index should be an integer."⟩

def readItem (index : Value) : Except Complaint Edit :=
  (place items index).map fun i => .keep (items.get i)

def writeItem (index value answer : Value) : Except Complaint Edit :=
  (place items index).map fun i => .replace answer (items.set i value)

def removeLast : Except Complaint Edit :=
  match items.getLast? with
  | some last => .ok (.replace last items.dropLast)
  | none => .error ⟨.index, "List is empty."⟩

def slice : Value → Value → Except Complaint Edit
  | .int i, .int j =>
    if 0 ≤ i.toInt ∧ i.toInt < items.length ∧ 0 ≤ j.toInt ∧ j.toInt ≤ items.length then
      if i.toInt < j.toInt then .ok (.fresh ((items.take j.toInt.toNat).drop i.toInt.toNat))
      else .error ⟨.index, "slice: first index should be smaller than second index."⟩
    else .error ⟨.index, "slice: parameters are not in valid range."⟩
  | _, _ => .error ⟨.type, "slice: parameters should be integers."⟩

/-- What an action makes of the sequence. -/
def of : ListAction → Except Complaint Edit
  | .method .push arguments => unary (fun value => .ok (.replace .nil (items ++ [value]))) arguments
  | .method .pop arguments => nullary (removeLast items) arguments
  | .method .clear arguments => nullary (.ok (.replace .nil [])) arguments
  | .method .len arguments => nullary (.ok (.keep (.int (Int64.ofNat items.length)))) arguments
  | .method .getAt arguments => unary (readItem items) arguments
  | .method .setAt arguments => binary (fun index value => writeItem items index value .nil) arguments
  | .method .slice arguments => binary (slice items) arguments
  | .item arguments => unary (readItem items) arguments
  | .setItem index value => writeItem items index value value

/-- A slice leaves the sequence alone, whatever its arguments are. -/
theorem slice_fresh (arguments : List Value) :
    (∃ copy, of items (.method .slice arguments) = .ok (.fresh copy)) ∨
      ∃ complaint, of items (.method .slice arguments) = .error complaint := by
  match arguments with
  | [start, stop] =>
    change (∃ copy, slice items start stop = _) ∨ ∃ complaint, slice items start stop = _
    unfold slice
    split
    · split
      · split <;> simp
      · simp
    · simp
  | [] => exact .inr ⟨_, rfl⟩
  | [_] => exact .inr ⟨_, rfl⟩
  | _ :: _ :: _ :: _ => exact .inr ⟨_, rfl⟩

end

end Edit

/-- A sequence for every list. The lists that are there are those below a number, and the next list gets that
number. -/
structure Sequences where
  contents : ListId → List Value
  count : Nat

namespace Sequences

/-- Gives a list another sequence. -/
def put (s : Sequences) (list : ListId) (items : List Value) : Sequences :=
  { s with contents := fun other => if other = list then items else s.contents other }

/-- Begins a list. -/
def add (s : Sequences) (items : List Value) : Sequences :=
  { s.put s.count items with count := s.count + 1 }

/-- The answer to an edit of a list, and the sequences after it. -/
def apply (s : Sequences) (list : ListId) : Except Complaint Edit → Except Complaint Value × Sequences
  | .ok (.keep answer) => (.ok answer, s)
  | .ok (.replace answer items) => (.ok answer, s.put list items)
  | .ok (.fresh items) => (.ok (.list s.count), s.add items)
  | .error complaint => (.error complaint, s)

/-- The answer to an operation, and the sequences after it. -/
def step (s : Sequences) (operation : ListOperation) : Except Complaint Value × Sequences :=
  s.apply operation.list (Edit.of (s.contents operation.list) operation.action)

/-- The answers to operations one after the other, and the sequences after them. An operation that is
complained about does not end the row. -/
def run (s : Sequences) : List ListOperation → List (Except Complaint Value) × Sequences
  | [] => ([], s)
  | operation :: rest =>
    let (answer, s) := s.step operation
    let (answers, s) := s.run rest
    (answer :: answers, s)

/-- Every operation is on a list that is there when its turn comes. -/
def There (s : Sequences) : List ListOperation → Prop
  | [] => True
  | operation :: rest => operation.list < s.count ∧ (s.step operation).2.There rest

section
variable (s : Sequences) (operation : ListOperation) (rest : List ListOperation)

theorem run_cons : s.run (operation :: rest) =
    ((s.step operation).1 :: ((s.step operation).2.run rest).1, ((s.step operation).2.run rest).2) := rfl

/-- A complaint leaves all sequences as they were. -/
theorem apply_error {list : ListId} {edit : Except Complaint Edit} {complaint : Complaint}
    (h : (s.apply list edit).1 = .error complaint) : (s.apply list edit).2 = s := by
  match edit with
  | .error _ => rfl
  | .ok (.keep _) => rfl
  | .ok (.replace _ _) => cases h
  | .ok (.fresh _) => cases h

/-- No list is lost. -/
theorem count_le_apply (list : ListId) (edit : Except Complaint Edit) :
    s.count ≤ (s.apply list edit).2.count := by
  unfold apply
  split <;> simp [put, add]

/-- An edit of a list changes no other one that is there. -/
theorem contents_apply {list other : ListId} (hlist : list < s.count) (hne : other ≠ list)
    (edit : Except Complaint Edit) : (s.apply other edit).2.contents list = s.contents list := by
  unfold apply
  split <;> simp [put, add, hne.symm, Nat.ne_of_lt hlist]

theorem contents_run {list : ListId} {operations : List ListOperation} (hlist : list < s.count)
    (hne : ∀ operation ∈ operations, operation.list ≠ list) :
    (s.run operations).2.contents list = s.contents list := by
  induction operations generalizing s with
  | nil => rfl
  | cons operation rest ih =>
    have hfirst : (s.step operation).2.contents list = s.contents list :=
      s.contents_apply hlist (hne operation List.mem_cons_self) _
    have hcount : list < (s.step operation).2.count := Nat.lt_of_lt_of_le hlist (s.count_le_apply _ _)
    rw [run_cons]
    exact (ih _ hcount fun other ho => hne other (List.mem_cons_of_mem _ ho)).trans hfirst

/-- A slice is a list that was not there before, and no other list is changed. -/
theorem step_slice (list : ListId) (arguments : List Value) :
    (∃ copy, s.step ⟨list, .method .slice arguments⟩ = (.ok (.list s.count), s.add copy)) ∨
      ∃ complaint, s.step ⟨list, .method .slice arguments⟩ = (.error complaint, s) := by
  unfold step
  rcases Edit.slice_fresh (s.contents list) arguments with ⟨copy, hcopy⟩ | ⟨complaint, hcomplaint⟩
  · exact .inl ⟨copy, congrArg (s.apply list) hcopy⟩
  · exact .inr ⟨complaint, congrArg (s.apply list) hcomplaint⟩

end

end Sequences

/-! ## The store in terms of sequences -/

/-- The fault by kind and in words. -/
def Fault.complaint (fault : Fault) : Complaint := ⟨fault.kind, fault.message⟩

namespace Store
variable (s : Store) {list : ListId}

/-- The sequences of the lists in the store. -/
def sequences : Sequences := ⟨fun list => (s.items list).toList, s.lists.size⟩

/-- The end of an operation on the store in terms of sequences. -/
def told (result : Except Fault Value × Store) : Except Complaint Value × Sequences :=
  (result.1.mapError Fault.complaint, result.2.sequences)

theorem items_modifyList (h : list < s.lists.size) (change : Array Value → Array Value) (other : ListId) :
    (s.modifyList list change).items other =
      if other = list then change (s.items list) else s.items other := by
  unfold modifyList items
  rw [Array.getElem?_modify]
  by_cases ho : list = other
  · subst ho
    simp [Array.getElem?_eq_getElem h]
  · simp [ho, Ne.symm ho]

theorem items_newList (items : Array Value) (other : ListId) :
    (s.newList items).2.items other = if other = s.lists.size then items else s.items other := by
  unfold newList Store.items
  rw [Array.getElem?_push]
  split <;> rfl

theorem sequences_modifyList (h : list < s.lists.size) (change : Array Value → Array Value) :
    (s.modifyList list change).sequences = s.sequences.put list (change (s.items list)).toList := by
  unfold sequences Sequences.put
  congr 1
  · funext other
    rw [items_modifyList s h]
    exact apply_ite Array.toList _ _ _
  · simp [modifyList]

theorem sequences_newList (items : Array Value) :
    (s.newList items).2.sequences = s.sequences.add items.toList := by
  unfold sequences Sequences.add Sequences.put
  congr 1
  · funext other
    rw [items_newList]
    exact apply_ite Array.toList _ _ _
  · simp [newList]

/-- An index denotes one place in a list and in its sequence, or it is rejected for one cause. -/
theorem position_cases (items : Array Value) (index : Value) :
    (∃ i, position items.size index = .ok i.val ∧ Edit.place items.toList index = .ok i) ∨
      ∃ fault, position items.size index = .error fault ∧
        Edit.place items.toList index = .error fault.complaint := by
  cases index with
  | int i =>
    by_cases h : 0 ≤ i.toInt ∧ i.toInt < items.toList.length
    · have hposition : 0 ≤ i.toInt ∧ i.toInt.toNat < items.size := by
        rw [Array.length_toList] at h
        omega
      exact .inl ⟨⟨i.toInt.toNat, Edit.toNat_lt_length _ h⟩, if_pos hposition, dif_pos h⟩
    · have hposition : ¬ (0 ≤ i.toInt ∧ i.toInt.toNat < items.size) := by
        rw [Array.length_toList] at h
        omega
      exact .inr ⟨.indexOutOfRange i, if_neg hposition, dif_neg h⟩
  | _ => exact .inr ⟨.indexNotInteger, rfl, rfl⟩

theorem told_itemAt (list : ListId) (index : Value) : told (s.itemAt list index, s) =
    s.sequences.apply list (Edit.readItem (s.items list).toList index) := by
  unfold itemAt Edit.readItem
  dsimp only
  rcases position_cases (s.items list) index with ⟨i, hp, hplace⟩ | ⟨fault, hp, hplace⟩
  · have hitem : (s.items list)[i.val]?.getD .nil = (s.items list).toList.get i := by simp
    rw [hp, hplace]
    exact congrArg (fun item => (Except.ok item, s.sequences)) hitem
  · rw [hp, hplace]
    rfl

theorem told_setItemAt (h : list < s.lists.size) (index value answer : Value) :
    told ((s.setItemAt list index value).1.map fun _ => answer, (s.setItemAt list index value).2) =
      s.sequences.apply list (Edit.writeItem (s.items list).toList index value answer) := by
  unfold Edit.writeItem
  rcases position_cases (s.items list) index with ⟨i, hp, hplace⟩ | ⟨fault, hp, hplace⟩
  · have hput : (s.modifyList list fun items => items.setIfInBounds i value).sequences =
        s.sequences.put list ((s.items list).toList.set i value) := by
      rw [sequences_modifyList s h, Array.toList_setIfInBounds]
    rw [setItemAt_ok hp, hplace]
    exact congrArg (Prod.mk (Except.ok answer)) hput
  · rw [setItemAt_error hp, hplace]
    rfl

theorem told_pop (h : list < s.lists.size) : told (s.callListMethod list .pop []) =
    s.sequences.apply list (Edit.removeLast (s.items list).toList) := by
  unfold callListMethod Edit.removeLast
  dsimp only
  rw [Array.getLast?_toList]
  cases (s.items list).back? with
  | none => rfl
  | some last =>
    have hput := sequences_modifyList s h Array.pop
    rw [Array.toList_pop] at hput
    exact congrArg (Prod.mk (Except.ok last)) hput

/-- The indices of a slice denote the same items in a list and in its sequence, or they are rejected for one
cause. -/
theorem slicePositions_cases (items : Array Value) (start stop : Value) :
    (∃ i j, slicePositions items.size start stop = .ok (i, j) ∧
      Edit.slice items.toList start stop = .ok (.fresh ((items.toList.take j).drop i))) ∨
      ∃ fault, slicePositions items.size start stop = .error fault ∧
        Edit.slice items.toList start stop = .error fault.complaint := by
  cases start with
  | int i =>
    cases stop with
    | int j =>
      by_cases hrange : 0 ≤ i.toInt ∧ i.toInt < items.toList.length ∧
          0 ≤ j.toInt ∧ j.toInt ≤ items.toList.length
      · have hin : ¬ (i.toInt < 0 ∨ (items.size : Int) ≤ i.toInt ∨
            j.toInt < 0 ∨ (items.size : Int) < j.toInt) := by
          rw [Array.length_toList] at hrange
          omega
        by_cases hlt : i.toInt < j.toInt
        · have hsome : ¬ j.toInt ≤ i.toInt := by omega
          exact .inl ⟨_, _, (if_neg hin).trans (if_neg hsome), (if_pos hrange).trans (if_pos hlt)⟩
        · have hempty : j.toInt ≤ i.toInt := by omega
          exact .inr ⟨.sliceEmpty, (if_neg hin).trans (if_pos hempty), (if_pos hrange).trans (if_neg hlt)⟩
      · have hout : i.toInt < 0 ∨ (items.size : Int) ≤ i.toInt ∨
            j.toInt < 0 ∨ (items.size : Int) < j.toInt := by
          rw [Array.length_toList] at hrange
          omega
        exact .inr ⟨.sliceOutOfRange, if_pos hout, if_neg hrange⟩
    | _ => exact .inr ⟨.sliceNotIntegers, rfl, rfl⟩
  | _ => exact .inr ⟨.sliceNotIntegers, rfl, rfl⟩

theorem told_sliceOf (list : ListId) (start stop : Value) : told (s.sliceOf list start stop) =
    s.sequences.apply list (Edit.slice (s.items list).toList start stop) := by
  unfold sliceOf
  dsimp only
  rcases slicePositions_cases (s.items list) start stop with ⟨i, j, hp, hslice⟩ | ⟨fault, hp, hslice⟩
  · have hextract : ((s.items list).extract i j).toList = ((s.items list).toList.take j).drop i := by
      rw [Array.toList_extract, List.extract_eq_take_drop, List.drop_take]
    have hadd := sequences_newList s ((s.items list).extract i j)
    rw [hextract] at hadd
    rw [hp, hslice]
    exact congrArg (Prod.mk (Except.ok (Value.list s.lists.size))) hadd
  · rw [hp, hslice]
    rfl

theorem told_callListMethod (h : list < s.lists.size) (method : ListMethod) (arguments : List Value) :
    told (s.callListMethod list method arguments) =
      s.sequences.apply list (Edit.of (s.items list).toList (.method method arguments)) := by
  match method, arguments with
  | .push, [value] =>
    have hput := sequences_modifyList s h fun items => items.push value
    rw [Array.toList_push] at hput
    exact congrArg (Prod.mk (Except.ok Value.nil)) hput
  | .pop, [] => exact told_pop s h
  | .clear, [] => exact congrArg (Prod.mk (Except.ok Value.nil)) (sequences_modifyList s h fun _ => #[])
  | .len, [] => rfl
  | .getAt, [index] => exact told_itemAt s list index
  | .setAt, [index, value] => exact told_setItemAt s h index value .nil
  | .slice, [start, stop] => exact told_sliceOf s list start stop
  -- Every other number of arguments is complained about.
  | .push, [] => rfl
  | .push, _ :: _ :: _ => rfl
  | .pop, _ :: _ => rfl
  | .clear, _ :: _ => rfl
  | .len, _ :: _ => rfl
  | .getAt, [] => rfl
  | .getAt, _ :: _ :: _ => rfl
  | .setAt, [] => rfl
  | .setAt, [_] => rfl
  | .setAt, _ :: _ :: _ :: _ => rfl
  | .slice, [] => rfl
  | .slice, [_] => rfl
  | .slice, _ :: _ :: _ :: _ => rfl

end Store

/-- What an operation does to the store. -/
def ListOperation.perform (operation : ListOperation) (s : Store) : Except Fault Value × Store :=
  match operation.action with
  | .method method arguments => s.callListMethod operation.list method arguments
  | .item arguments => s.callListMethod operation.list .getAt arguments
  | .setItem index value =>
    let (result, s) := s.setItemAt operation.list index value
    (result.map fun _ => value, s)

/-- An operation on the store is one on the sequences. -/
theorem told_perform {operation : ListOperation} {s : Store} (h : operation.list < s.lists.size) :
    Store.told (operation.perform s) = s.sequences.step operation := by
  obtain ⟨list, action⟩ := operation
  cases action with
  | method method arguments => exact s.told_callListMethod h method arguments
  | item arguments => exact s.told_callListMethod h .getAt arguments
  | setItem index value => exact s.told_setItemAt h index value value

end LoxLang
