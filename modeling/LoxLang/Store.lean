import LoxLang.Value

/-!
# The store

Scopes, lists and instances, each kind numbered in the order in which its entries were made. Entries are
never taken out, and a binding, once there, keeps its place in its scope.

A scope names the scope around it, which was made before. The scopes on the way out are the chain of a
scope; a name belongs to the first scope of the chain that binds it.
-/

namespace LoxLang

/-- Names with their values, and the scope around them. -/
structure Scope where
  bindings : Table Value := []
  enclosing : Option ScopeId := none

/-- All that values refer to. -/
structure Store where
  scopes : Array Scope := #[]
  lists : Array (Array Value) := #[]
  instances : Array (Table Value) := #[]
  nextIdentity : Identity := 0
deriving Inhabited

namespace Store

/-! ## Scopes -/

/-- A new scope with these bindings. -/
def newScope (s : Store) (bindings : Table Value) (enclosing : Option ScopeId) : ScopeId × Store :=
  (s.scopes.size, { s with scopes := s.scopes.push ⟨bindings, enclosing⟩ })

/-- The scope around a scope. -/
def enclosing? (s : Store) (scope : ScopeId) : Option ScopeId :=
  s.scopes[scope]?.bind Scope.enclosing

/-- The value that a scope itself gives to a name. -/
def binding? (s : Store) (scope : ScopeId) (name : String) : Option Value :=
  s.scopes[scope]?.bind fun found => found.bindings.get? name

/-- Binds a name in a scope, whether it is bound there already or not. -/
def define (s : Store) (scope : ScopeId) (name : String) (value : Value) : Store :=
  { s with
    scopes :=
      s.scopes.modify scope fun found => { found with bindings := found.bindings.put name value } }

/-- The first scopes on the way out, at most as many as there is fuel. -/
def chainFrom (s : Store) : Nat → ScopeId → List ScopeId
  | 0, _ => []
  | fuel + 1, scope =>
    match s.scopes[scope]? with
    | none => []
    | some found =>
      match found.enclosing with
      | some outer => scope :: s.chainFrom fuel outer
      | none => [scope]

/-- A scope and all scopes around it, from the inside out. Since a scope was made after the one around
it, there are no more of them than its number says. -/
def chain (s : Store) (scope : ScopeId) : List ScopeId := s.chainFrom (scope + 1) scope

/-- The scope that a name belongs to, seen from another scope. -/
def binder? (s : Store) (scope : ScopeId) (name : String) : Option ScopeId :=
  (s.chain scope).find? fun outer => (s.binding? outer name).isSome

/-- The value of a name, seen from a scope. -/
def lookup? (s : Store) (scope : ScopeId) (name : String) : Option Value :=
  (s.binder? scope name).bind fun outer => s.binding? outer name

/-- Changes the value of a name where it is bound, if it is. -/
def assign? (s : Store) (scope : ScopeId) (name : String) (value : Value) : Option Store :=
  (s.binder? scope name).map fun outer => s.define outer name value

/-- The scope so many steps further out, or the outermost one if there are fewer. -/
def ancestor (s : Store) : Nat → ScopeId → ScopeId
  | 0, scope => scope
  | distance + 1, scope =>
    match s.enclosing? scope with
    | some outer => s.ancestor distance outer
    | none => scope

/-- The scope at a distance, if it itself binds a name. -/
def binderAt? (s : Store) (scope : ScopeId) (distance : Nat) (name : String) : Option ScopeId :=
  let outer := s.ancestor distance scope
  if (s.binding? outer name).isSome then some outer else none

/-- The value that the scope at a distance itself gives to a name. -/
def lookupAt? (s : Store) (scope : ScopeId) (distance : Nat) (name : String) : Option Value :=
  (s.binderAt? scope distance name).bind fun outer => s.binding? outer name

/-- Changes the value of a name in the scope at a distance, if that scope itself binds it. -/
def assignAt? (s : Store) (scope : ScopeId) (distance : Nat) (name : String) (value : Value) :
    Option Store :=
  (s.binderAt? scope distance name).map fun outer => s.define outer name value

/-- Binds the functions of the language in a scope. -/
def defineBuiltins (s : Store) (scope : ScopeId) : Store :=
  Builtin.all.foldl (fun s builtin => s.define scope builtin.name (.builtin builtin)) s

/-! ## Lists and instances -/

/-- A new list with these items. -/
def newList (s : Store) (items : Array Value) : ListId × Store :=
  (s.lists.size, { s with lists := s.lists.push items })

/-- The items of a list. -/
def items (s : Store) (list : ListId) : Array Value := s.lists[list]?.getD #[]

/-- Changes the items of a list. -/
def modifyList (s : Store) (list : ListId) (change : Array Value → Array Value) : Store :=
  { s with lists := s.lists.modify list change }

/-- A new instance without fields. -/
def newInstance (s : Store) : InstanceId × Store :=
  (s.instances.size, { s with instances := s.instances.push [] })

/-- A field of an instance. -/
def field? (s : Store) (object : InstanceId) (name : String) : Option Value :=
  s.instances[object]?.bind fun fields => fields.get? name

/-- Gives a value to a field of an instance. -/
def setField (s : Store) (object : InstanceId) (name : String) (value : Value) : Store :=
  { s with instances := s.instances.modify object fun fields => fields.put name value }

/-! ## Identities -/

/-- An identity that nothing has yet. -/
def newIdentity (s : Store) : Identity × Store :=
  (s.nextIdentity, { s with nextIdentity := s.nextIdentity + 1 })

end Store

end LoxLang
