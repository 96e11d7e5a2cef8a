import LoxLang.Proofs.Effect
import LoxLang.Proofs.Renumber.Store
import Mathlib.Data.Option.Defs

/-!
# Effects on stores with other numbers

An effect shadows another one if it does, on the machine with further entries, what the other one does on
the machine without them, and ends in the same way. If the first effect runs out of fuel, nothing is said
about the second one, which may have more of it. As long as it lasts, the numbers of entries only grow and no
reference dangles.
-/

namespace LoxLang

/-! ## Machines -/

/-- No reference in the machine dangles. -/
structure Machine.Sound (m : Machine) : Prop where
  store : m.store.Sound
  current : m.current < m.store.scopes.size
  globals : m.globals < m.store.scopes.size

/-- The second machine is the first one with the entries of the gap in between. -/
structure Machine.Beside (g : Gap) (m m' : Machine) : Prop where
  store : m.store.Beside g m'.store
  current_lt : m.current < m.store.scopes.size
  globals_lt : m.globals < m.store.scopes.size
  current : m'.current = g.scope m.current
  globals : m'.globals = g.scope m.globals
  depths : m'.depths = m.depths
  console : m'.console = m.console
  clock : m'.clock = m.clock

abbrev Machine.extent (m : Machine) : Extent := m.store.extent

/-- The second outcome is that of the first one, with other numbers. -/
inductive Shadows {α : Type} (g : Gap) (m : Machine) (R : Extent → α → α → Prop) :
    Outcome α → Outcome α → Prop
  | done {a a' : α} {n n' : Machine} : n.Beside g n' → m.extent ≤ n.extent → R n.extent a a' →
      Shadows g m R (.done a n) (.done a' n')
  | failed {e : RuntimeError} {n n' : Machine} : n.Beside g n' → m.extent ≤ n.extent →
      Shadows g m R (.failed e n) (.failed e n')
  | outOfFuel {n : Machine} {o : Outcome α} : n.Sound → m.extent ≤ n.extent →
      Shadows g m R (.outOfFuel n) o

theorem Machine.Beside.sound {g : Gap} {m m' : Machine} (h : m.Beside g m') : m.Sound :=
  ⟨h.store.sound, h.current_lt, h.globals_lt⟩

/-! ## Rules -/

section Rules
variable {α β : Type} {g : Gap} {m m' n : Machine} {R : Extent → α → α → Prop}
  {T : Extent → β → β → Prop}

theorem Shadows.since {o o' : Outcome α} (h : Shadows g n R o o') (hn : m.extent ≤ n.extent) :
    Shadows g m R o o' := by
  cases h with
  | done hb hle hr => exact .done hb (Extent.le_trans hn hle) hr
  | failed hb hle => exact .failed hb (Extent.le_trans hn hle)
  | outOfFuel hs hle => exact .outOfFuel hs (Extent.le_trans hn hle)

theorem Shadows.imp {T : Extent → α → α → Prop} {o o' : Outcome α} (h : Shadows g m R o o')
    (hT : ∀ x a a', m.extent ≤ x → R x a a' → T x a a') : Shadows g m T o o' := by
  cases h with
  | done hb hle hr => exact .done hb hle (hT _ _ _ hle hr)
  | failed hb hle => exact .failed hb hle
  | outOfFuel hs hle => exact .outOfFuel hs hle

theorem Shadows.bind {effect effect' : Effect α} {next next' : α → Effect β}
    (h : Shadows g m R (effect m) (effect' m'))
    (hn : ∀ a a' n n', n.Beside g n' → m.extent ≤ n.extent → R n.extent a a' →
      Shadows g n T (next a n) (next' a' n')) :
    Shadows g m T ((effect >>= next) m) ((effect' >>= next') m') := by
  change Shadows g m T (Effect.andThen effect next m) (Effect.andThen effect' next' m')
  unfold Effect.andThen
  generalize effect m = o, effect' m' = o' at h
  cases h with
  | done hb hle hr => exact (hn _ _ _ _ hb hle hr).since hle
  | failed hb hle => exact .failed hb hle
  | outOfFuel hs hle => exact .outOfFuel hs hle

theorem shadows_exhausted (h : m.Sound) (o : Outcome α) : Shadows g m R (Effect.exhausted m) o :=
  .outOfFuel h (Extent.le_refl _)

variable (h : m.Beside g m')
include h

theorem shadows_yield {a a' : α} (hr : R m.extent a a') :
    Shadows g m R ((pure a : Effect α) m) ((pure a' : Effect α) m') :=
  .done h (Extent.le_refl _) hr

theorem shadows_fail (line : Nat) (fault : Fault) :
    Shadows g m R (Effect.fail line fault m) (Effect.fail line fault m') :=
  .failed h (Extent.le_refl _)

theorem shadows_read {find find' : Machine → α} (hr : R m.extent (find m) (find' m')) :
    Shadows g m R (Effect.read find m) (Effect.read find' m') :=
  .done h (Extent.le_refl _) hr

theorem shadows_currentScope : Shadows g m (fun x i i' => i < x.scopes ∧ i' = g.scope i)
    (Effect.currentScope m) (Effect.currentScope m') :=
  .done h (Extent.le_refl _) ⟨h.current_lt, h.current⟩

theorem shadows_ofExcept (line : Nat) {result result' : Except Fault α}
    (hr : ResultRel (R m.extent) result result') :
    Shadows g m R (Effect.ofExcept line result m) (Effect.ofExcept line result' m') := by
  cases hr with
  | ok hr => exact .done h (Extent.le_refl _) hr
  | error fault => exact .failed h (Extent.le_refl _)

theorem shadows_ofOption (line : Nat) (fault : Fault) {found found' : Option α}
    (hr : Option.Rel (R m.extent) found found') :
    Shadows g m R (Effect.ofOption line fault found m) (Effect.ofOption line fault found' m') := by
  cases hr with
  | some hr => exact .done h (Extent.le_refl _) hr
  | none => exact .failed h (Extent.le_refl _)

/-- The machine with a changed store, whose extent has grown. -/
theorem Machine.Beside.changed {s s' : Store} (hs : s.Beside g s') (hle : m.extent ≤ s.extent) :
    Machine.Beside g { m with store := s } { m' with store := s' } :=
  { h with
    store := hs
    current_lt := Nat.lt_of_lt_of_le h.current_lt hle.scopes
    globals_lt := Nat.lt_of_lt_of_le h.globals_lt hle.scopes }

theorem shadows_make {making making' : Store → α × Store}
    (hs : (making m.store).2.Beside g (making' m'.store).2)
    (hle : m.extent ≤ (making m.store).2.extent)
    (hr : R (making m.store).2.extent (making m.store).1 (making' m'.store).1) :
    Shadows g m R (Effect.make making m) (Effect.make making' m') :=
  .done (h.changed hs hle) hle hr

theorem shadows_modifyStore {change change' : Store → Store}
    (hs : (change m.store).Beside g (change' m'.store)) (hle : m.extent ≤ (change m.store).extent) :
    Shadows g m (fun _ _ _ => True) (Effect.modifyStore change m) (Effect.modifyStore change' m') :=
  .done (h.changed hs hle) hle trivial

theorem shadows_onStore (line : Nat) {operation operation' : Store → Except Fault α × Store}
    (hs : Yields g R m.store (operation m.store) (operation' m'.store)) :
    Shadows g m R (Effect.onStore line operation m) (Effect.onStore line operation' m') := by
  obtain ⟨hb, hle, hr⟩ := hs
  unfold Effect.onStore
  generalize operation m.store = r, operation' m'.store = r' at hb hle hr
  obtain ⟨result, s⟩ := r
  obtain ⟨result', s'⟩ := r'
  cases hr with
  | ok hr => exact .done (h.changed hb hle) hle hr
  | error fault => exact .failed (h.changed hb hle) hle

theorem shadows_onConsole (line : Nat) (operation : Console → Except Fault α × Console) :
    Shadows g m (fun _ a a' => a' = a) (Effect.onConsole line operation m)
      (Effect.onConsole line operation m') := by
  unfold Effect.onConsole
  rw [h.console]
  rcases operation m.console with ⟨_ | a, console⟩
  · exact .failed { h with console := rfl } (Extent.le_refl _)
  · exact .done { h with console := rfl } (Extent.le_refl _) rfl

theorem shadows_within {scope : ScopeId} (hscope : scope < m.store.scopes.size)
    {effect effect' : Effect α} (he : ∀ n n' : Machine, n.Beside g n' → n.store = m.store →
      Shadows g n R (effect n) (effect' n')) :
    Shadows g m R (Effect.within scope effect m) (Effect.within (g.scope scope) effect' m') := by
  have hin := he { m with current := scope } { m' with current := g.scope scope }
    { h with current_lt := hscope, current := rfl } rfl
  unfold Effect.within
  generalize effect { m with current := scope } = o,
    effect' { m' with current := g.scope scope } = o' at hin
  cases hin with
  | done hb hle hr =>
    exact .done { hb with current_lt := Nat.lt_of_lt_of_le h.current_lt hle.scopes, current := h.current }
      hle hr
  | failed hb hle =>
    exact .failed { hb with current_lt := Nat.lt_of_lt_of_le h.current_lt hle.scopes, current := h.current }
      hle
  | outOfFuel hs hle =>
    exact .outOfFuel { hs with current := Nat.lt_of_lt_of_le h.current_lt hle.scopes } hle

end Rules

end LoxLang
