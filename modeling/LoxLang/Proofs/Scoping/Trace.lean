import LoxLang.Proofs.Notes
import LoxLang.Proofs.Scoping.Context

/-!
# Runs with a history

The notes of a history tell every scope that is opened, with what the scope is opened for, every method that is
bound to an instance, and every use of a name together with the machine at that moment.
-/

namespace LoxLang

/-- What a history records: every scope that is opened, every method that is bound to an instance, with the
scope that binds it, and every use of a name. A use is a reference, an assignment, `this` or `super`, at the
moment at which its name is looked for. -/
inductive Event where
  | opened (scope : ScopeId) (site : Site)
  | bound (scope : ScopeId) (method : Closure) (receiver : Value)
  | used (node : Expr) (machine : Machine)

/-- The events of a run, the last one first. -/
abbrev History := List Event

/-- What a scope is opened for, as far as the text tells. -/
def Opening.site : Opening → Site
  | block body _ => .block body
  | call f _ => .call f.declaration
  | receiver method _ => .receiver method.declaration
  | superclass name target methods _ _ => .superclass name target methods

/-- The notes of a history. -/
def historyNotes : Notes Event where
  opened opening m :=
    match opening with
    | .receiver method receiver =>
      [.opened m.store.scopes.size (.receiver method.declaration), .bound m.store.scopes.size method receiver]
    | opening => [.opened m.store.scopes.size opening.site]
  used node m := [.used node m]

/-- The operations of the evaluator with a history. -/
def tracing : Operations (Traced Event) := historyNotes.operations

/-- The evaluator with a history. -/
def traced (fuel : Nat) : Evaluator (Traced Event) := historyNotes.evaluator fuel

theorem traced_watches (fuel : Nat) : WatchesAll (traced fuel) (.withFuel fuel) :=
  watchesAll historyNotes fuel

/-- A history goes on with the events of an effect. -/
def Traced.onto {α : Type} (t : Traced Event α) (log : History) (m : Machine) : Outcome α × History :=
  ((t m).1, (t m).2.reverse ++ log)

theorem Traced.onto_bind {α β : Type} (t : Traced Event α) (next : α → Traced Event β) (log : History)
    (m : Machine) : (t >>= next).onto log m =
      match t.onto log m with
      | (.done a after, log) => (next a).onto log after
      | (.failed e after, log) => (.failed e after, log)
      | (.outOfFuel after, log) => (.outOfFuel after, log) := by
  unfold Traced.onto
  change ((Traced.andThen t next m).1, (Traced.andThen t next m).2.reverse ++ log) = _
  unfold Traced.andThen
  rcases t m with ⟨⟨a, after⟩ | ⟨e, after⟩ | after, notes⟩
  · simp
  · rfl
  · rfl

theorem Traced.onto_within {α : Type} (scope : ScopeId) (t : Traced Event α) (log : History) (m : Machine) :
    (within scope t).onto log m =
      match t.onto log { m with current := scope } with
      | (.done a after, log) => (.done a { after with current := m.current }, log)
      | (.failed e after, log) => (.failed e { after with current := m.current }, log)
      | (.outOfFuel after, log) => (.outOfFuel { after with current := m.current }, log) := by
  unfold onto within
  rcases t { m with current := scope } with ⟨⟨a, after⟩ | ⟨e, after⟩ | after, notes⟩ <;> rfl

theorem Traced.quiet_bind {α β : Type} (effect : Effect α) (next : α → Effect β) :
    (quiet (effect >>= next) : Traced Event β) = quiet effect >>= fun a => quiet (next a) := by
  funext m
  change (Effect.andThen effect next m, []) = andThen (quiet effect) _ m
  unfold andThen Effect.andThen quiet noting
  rcases effect m with a | e | _ <;> rfl

/-- A scope is opened, and it is recorded what for. -/
def Traced.openScope (site : Site) (bindings : Table Value) (around : Option ScopeId) : Traced Event ScopeId :=
  .noting (fun m => [.opened m.store.scopes.size site]) (.make fun s => s.newScope bindings around)

end LoxLang
