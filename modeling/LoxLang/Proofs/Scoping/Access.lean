import LoxLang.Proofs.Effect
import LoxLang.Proofs.Scoping.Depth

/-!
# Access by depth

A name with a depth is looked for in one scope, the one to which the depth leads from the current scope, whatever
other scopes bind the name. The effects of this module name the scope that they read or write. A use whose depth is
noted does, from the moment on at which its name is looked for, what one of them does in the scope at that depth;
`super` is read there, and `this` one scope further in.
-/

namespace LoxLang

/-- Reads a name in a scope and looks nowhere else. -/
def readIn (scope : ScopeId) (name : Name) : Effect Value := do
  let value ← Effect.read fun m => m.store.binding? scope name.text
  .ofOption name.line (.undefinedVariable name.text) value

/-- Changes a name in a scope, which must bind it. -/
def writeIn (scope : ScopeId) (name : Name) (value : Value) : Effect Unit := do
  let _ ← readIn scope name
  .modifyStore fun s => s.define scope name.text value

/-- Assigns a value to a name in a scope; a compound operator reads the name in the same scope. -/
def assignIn (scope : ScopeId) (name : Name) (operator : AssignOperator) (value : Value) : Effect Value := do
  let value ← combine operator name.line value (readIn scope name)
  writeIn scope name value
  pure value

/-- A method of the class that `super` is in one scope, bound to the instance that `this` is in another one. -/
def inheritedIn (outer inner : ScopeId) (line : Nat) (method : Name) : Effect Value := do
  let superclass ← readIn outer ⟨"super", line⟩
  let receiver ← readIn inner ⟨"this", line⟩
  match superclass, receiver with
  | .classObject superclass, .instanceOf id class_ =>
    match superclass.method? method.text with
    | some found => boundMethod found (.instanceOf id class_)
    | none => .fail method.line (.undefinedProperty method.text)
  | _, _ => .fail line .inheritedNotBound

section
variable {m : Machine} {depth : Nat} {name : String}

/-- The scope at a depth is the only one that a name with this depth can belong to. -/
theorem holder_eq_ancestor {holder : ScopeId} (h : m.holder? (some depth) name = some holder) :
    holder = m.store.ancestor depth m.current := by
  unfold Machine.holder? Store.binderAt? at h
  exact (Option.some.inj (Option.ite_none_right_eq_some.1 h).2).symm

theorem readName_eq_readIn (depth : Nat) (name : Name) (m : Machine) :
    readName (some depth) name m = readIn (m.store.ancestor depth m.current) name m := by
  change Effect.ofOption _ _ ((m.store.binderAt? m.current depth name.text).bind _) m =
    Effect.ofOption _ _ (m.store.binding? (m.store.ancestor depth m.current) name.text) m
  unfold Store.binderAt?
  dsimp only
  cases hb : m.store.binding? (m.store.ancestor depth m.current) name.text with
  | none => rfl
  | some value =>
    rw [Option.isSome_some, if_pos rfl, Option.bind_some, hb]

theorem writeName_eq_writeIn (depth : Nat) (name : Name) (value : Value) (m : Machine) :
    writeName (some depth) name value m = writeIn (m.store.ancestor depth m.current) name value m := by
  change Effect.andThen (Effect.ofOption _ _ (m.store.binderAt? m.current depth name.text)) _ m =
    Effect.andThen (Effect.ofOption _ _ (m.store.binding? (m.store.ancestor depth m.current) name.text)) _ m
  unfold Store.binderAt?
  dsimp only
  cases m.store.binding? (m.store.ancestor depth m.current) name.text <;> rfl

/-- Reading changes nothing. -/
theorem readIn_done {scope : ScopeId} {name : Name} {value : Value} {after : Machine}
    (h : readIn scope name m = .done value after) : after = m := by
  change Effect.ofOption _ _ (m.store.binding? scope name.text) m = _ at h
  exact ofExcept_done h

end

/-- From a machine on in which its name is looked for, a use goes to the scope at a depth. A reference is evaluated or
read by a class statement, as the name of the superclass; an assignment has evaluated its operand by then. -/
def AccessesAt (name : String) (depth : Nat) (m : Machine) : Expr → Prop
  | .reference target =>
    readReference target m = readIn (m.store.ancestor depth m.current) ⟨name, target.name.line⟩ m ∧
      ∀ fuel, evaluate (fuel + 1) (.reference target) m = readReference target m
  | .receiver target => ∀ fuel, evaluate (fuel + 1) (.receiver target) m =
      readIn (m.store.ancestor depth m.current) ⟨name, target.name.line⟩ m
  | .assign target operator value => ∀ fuel before operand, evaluate fuel value before = .done operand m →
      evaluate (fuel + 1) (.assign target operator value) before =
        assignIn (m.store.ancestor depth m.current) ⟨name, target.name.line⟩ operator operand m
  | .inherited target method => ∀ fuel, evaluate (fuel + 1) (.inherited target method) m =
      inheritedIn (m.store.ancestor depth m.current) (m.store.ancestor (depth - 1) m.current) target.name.line
        method m
  | _ => True

section
variable {m : Machine} {depth : Nat}

theorem readReference_eq_readIn {target : Reference} (hd : m.depths[target.id]? = some depth) :
    readReference target m = readIn (m.store.ancestor depth m.current) target.name m := by
  have hdepth : depthOf target.id m = .done (some depth) m := congrArg (Outcome.done · m) hd
  exact (Effect.bind_done hdepth).trans (readName_eq_readIn depth target.name m)

/-- Where an assignment has its operand, the rest of it goes to the scope at the depth. -/
theorem assign_eq_assignIn (name : Name) (operator : AssignOperator) (value : Value) :
    (do
      let value ← combine operator name.line value (readName (some depth) name)
      writeName (some depth) name value
      pure value : Effect Value) m =
      assignIn (m.store.ancestor depth m.current) name operator value m := by
  have hwrite (result : Value) : (writeName (some depth) name result >>= fun _ => pure result) m =
      (writeIn (m.store.ancestor depth m.current) name result >>= fun _ => pure result) m :=
    Effect.bind_congr (writeName_eq_writeIn depth name result m) fun _ _ _ => rfl
  unfold assignIn
  cases operator with
  | plain => exact hwrite value
  | compound operator =>
    have hcombine : combine (.compound operator) name.line value (readName (some depth) name) m =
        combine (.compound operator) name.line value (readIn (m.store.ancestor depth m.current) name) m :=
      Effect.bind_congr (readName_eq_readIn depth name m) fun _ _ _ => rfl
    refine Effect.bind_congr hcombine fun result after hr => ?_
    obtain ⟨old, middle, hold, happly⟩ := Effect.done_of_bind hr
    rw [ofExcept_done happly, readIn_done hold]
    exact hwrite result

theorem inheritedMethod_eq_inheritedIn {target : Reference} (method : Name) (hd : m.depths[target.id]? = some depth) :
    inheritedMethod target method m = inheritedIn (m.store.ancestor depth m.current)
      (m.store.ancestor (depth - 1) m.current) target.name.line method m := by
  have hdepth : depthOf target.id m = .done (some depth) m := congrArg (Outcome.done · m) hd
  have hsome : Effect.ofOption target.name.line (.undefinedVariable "super") (some depth) m = .done depth m := rfl
  refine (Effect.bind_done hdepth).trans ((Effect.bind_done hsome).trans ?_)
  refine Effect.bind_congr (readName_eq_readIn depth ⟨"super", target.name.line⟩ m) fun superclass after hs => ?_
  rw [readIn_done hs]
  exact Effect.bind_congr (readName_eq_readIn (depth - 1) ⟨"this", target.name.line⟩ m) fun _ _ _ => rfl

/-- A use whose depth is noted goes to the scope at this depth. -/
theorem accessesAt {node : Expr} {id : NodeId} {name : String} (hu : node.use? = some (id, name))
    (hthis : ∀ target, node = .receiver target → target.name.text = name) (hd : m.depths[id]? = some depth) :
    AccessesAt name depth m node := by
  cases node with
  | reference target =>
    cases hu
    exact ⟨readReference_eq_readIn hd, fun _ => rfl⟩
  | receiver target =>
    cases hu
    intro fuel
    rw [← hthis target rfl]
    exact readReference_eq_readIn hd
  | assign target operator value =>
    cases hu
    intro fuel before operand ho
    refine (Effect.bind_done ho).trans ((Effect.bind_done ?_).trans (assign_eq_assignIn target.name operator operand))
    exact congrArg (Outcome.done · m) hd
  | inherited target method =>
    cases hu
    exact fun fuel => inheritedMethod_eq_inheritedIn method hd
  | _ => cases hu

end

end LoxLang
