import LoxLang.Proofs.Renaming.Store

/-!
# Two machines abreast

One machine runs a program and the other one the renamed program. They are abreast if their stores
correspond in a world and all else is the same. Effects match if they take machines that are abreast to such
machines again, in a later world, and end in the same way. An effect leaves the current scope as it was, so
the nesting of the place at which code stands is known all the time.
-/

namespace LoxLang

variable {ρ : Renaming} {w later : World} {scope : ScopeId}

/-- The machines are in the given scope, and the depths are those by which names are exchanged. -/
structure Abreast (ρ : Renaming) (w : World) (scope : ScopeId) (m m' : Machine) : Prop where
  store : StoresMatch ρ w m.store m'.store
  current : m.current = scope
  current' : m'.current = scope
  globals : m'.globals = m.globals
  outside : w[m.globals]? = some none
  depths : ∀ id, m.depths[id]? = ρ.depth id
  depths' : m'.depths = m.depths
  console : m'.console = m.console
  clock : m'.clock = m.clock

/-- The errors are the same, but that an undefined variable may be named by the other name. -/
inductive ErrorsMatch (ρ : Renaming) : RuntimeError → RuntimeError → Prop
  | same {e : RuntimeError} : ErrorsMatch ρ e e
  | undefined {line : Nat} :
      ErrorsMatch ρ ⟨.undefinedVariable ρ.old, line⟩ ⟨.undefinedVariable ρ.new, line⟩

/-- The effects ended in the same way, in a later world, with values related there. -/
inductive OutcomesMatch {α : Type} (ρ : Renaming) (w : World) (scope : ScopeId) (R : World → α → α → Prop) :
    Outcome α → Outcome α → Prop
  | done {later : World} {a a' : α} {m m' : Machine} : w.Grows later → R later a a' →
      Abreast ρ later scope m m' → OutcomesMatch ρ w scope R (.done a m) (.done a' m')
  | failed {later : World} {e e' : RuntimeError} {m m' : Machine} : w.Grows later → ErrorsMatch ρ e e' →
      Abreast ρ later scope m m' → OutcomesMatch ρ w scope R (.failed e m) (.failed e' m')
  | outOfFuel {later : World} {m m' : Machine} : w.Grows later → Abreast ρ later scope m m' →
      OutcomesMatch ρ w scope R (.outOfFuel m) (.outOfFuel m')

/-- Effects that end in the same way on machines abreast. -/
def EffectsMatch {α : Type} (ρ : Renaming) (w : World) (scope : ScopeId) (R : World → α → α → Prop)
    (effect effect' : Effect α) : Prop :=
  ∀ m m', Abreast ρ w scope m m' → OutcomesMatch ρ w scope R (effect m) (effect' m')

namespace OutcomesMatch
variable {α : Type} {R : World → α → α → Prop} {o o' : Outcome α}

/-- What ends in a way from a later world on ends so from an earlier one on. -/
theorem earlier (h : OutcomesMatch ρ later scope R o o') (hw : w.Grows later) :
    OutcomesMatch ρ w scope R o o' := by
  cases h with
  | done hl hr ha => exact .done (hw.trans hl) hr ha
  | failed hl he ha => exact .failed (hw.trans hl) he ha
  | outOfFuel hl ha => exact .outOfFuel (hw.trans hl) ha

end OutcomesMatch

namespace EffectsMatch
variable {α β : Type} {R : World → α → α → Prop} {S : World → β → β → Prop}

theorem yield {a a' : α} (h : R w a a') : EffectsMatch ρ w scope R (pure a) (pure a') :=
  fun _ _ hm => .done (List.prefix_refl w) h hm

theorem exhausted : EffectsMatch ρ w scope R Effect.exhausted Effect.exhausted :=
  fun _ _ hm => .outOfFuel (List.prefix_refl w) hm

theorem fail (line : Nat) (fault : Fault) :
    EffectsMatch ρ w scope R (Effect.fail line fault) (Effect.fail line fault) :=
  fun _ _ hm => .failed (List.prefix_refl w) .same hm

theorem bind {effect effect' : Effect α} {next next' : α → Effect β}
    (h : EffectsMatch ρ w scope R effect effect')
    (hn : ∀ later, w.Grows later → ∀ a a', R later a a' →
      EffectsMatch ρ later scope S (next a) (next' a')) :
    EffectsMatch ρ w scope S (effect >>= next) (effect' >>= next') := by
  intro m m' hm
  have hfirst := h m m' hm
  change OutcomesMatch ρ w scope S (Effect.andThen effect next m) (Effect.andThen effect' next' m')
  unfold Effect.andThen
  cases ha : effect m <;> cases ha' : effect' m' <;> rw [ha, ha'] at hfirst <;> cases hfirst
  case done.done.done hl hr habreast => exact (hn _ hl _ _ hr _ _ habreast).earlier hl
  case failed.failed.failed hl he habreast => exact .failed hl he habreast
  case outOfFuel.outOfFuel.outOfFuel hl habreast => exact .outOfFuel hl habreast

theorem read {find find' : Machine → α} (h : ∀ m m', Abreast ρ w scope m m' → R w (find m) (find' m')) :
    EffectsMatch ρ w scope R (Effect.read find) (Effect.read find') :=
  fun m m' hm => .done (List.prefix_refl w) (h m m' hm) hm

theorem currentScope :
    EffectsMatch ρ w scope (fun _ a a' => a = scope ∧ a' = scope) Effect.currentScope Effect.currentScope :=
  read fun _ _ hm => ⟨hm.current, hm.current'⟩

theorem ofOption (line : Nat) {fault fault' : Fault} {found found' : Option α}
    (hf : ErrorsMatch ρ ⟨fault, line⟩ ⟨fault', line⟩) (h : Option.Rel (R w) found found') :
    EffectsMatch ρ w scope R (Effect.ofOption line fault found) (Effect.ofOption line fault' found') := by
  intro m m' hm
  cases h with
  | none => exact .failed (List.prefix_refl w) hf hm
  | some h => exact .done (List.prefix_refl w) h hm

theorem ofExcept (line : Nat) {result result' : Except Fault α} (h : ResultsMatch (R w) result result') :
    EffectsMatch ρ w scope R (Effect.ofExcept line result) (Effect.ofExcept line result') := by
  intro m m' hm
  cases h with
  | error => exact .failed (List.prefix_refl w) .same hm
  | ok h => exact .done (List.prefix_refl w) h hm

theorem modifyStore {change change' : Store → Store}
    (h : ∀ s s', StoresMatch ρ w s s' → StoresMatch ρ w (change s) (change' s')) :
    EffectsMatch ρ w scope (fun _ _ _ => True) (Effect.modifyStore change) (Effect.modifyStore change') :=
  fun _ _ hm => .done (List.prefix_refl w) trivial { hm with store := h _ _ hm.store }

theorem make {making making' : Store → α × Store}
    (h : ∀ s s', StoresMatch ρ w s s' →
      R w (making s).1 (making' s').1 ∧ StoresMatch ρ w (making s).2 (making' s').2) :
    EffectsMatch ρ w scope R (Effect.make making) (Effect.make making') := by
  intro m m' hm
  obtain ⟨hr, hs⟩ := h _ _ hm.store
  exact .done (List.prefix_refl w) hr { hm with store := hs }

/-- A scope is opened inside another one, with its nesting. -/
theorem newScope {k n : Nesting} {outer : ScopeId} {t t' : Table Value} (hk : w[outer]? = some k)
    (hn : Enters k n) (ht : BindingsMatch ρ w n t t') :
    EffectsMatch ρ w scope (fun later a a' => a' = a ∧ later[a]? = some n)
      (Effect.make fun s => s.newScope t (some outer)) (Effect.make fun s => s.newScope t' (some outer)) := by
  intro m m' hm
  have hw : w.Grows (w ++ [n]) := List.prefix_append w [n]
  have hsize := hm.store.size
  refine .done hw ⟨hm.store.size'.trans hsize.symm, ?_⟩
    { hm with store := hm.store.newScope hk hn ht, outside := hw.nesting hm.outside }
  exact hsize ▸ w.nesting_new n

theorem onStore (line : Nat) {operation operation' : Store → Except Fault α × Store}
    (h : ∀ s s', StoresMatch ρ w s s' → ResultsMatch (R w) (operation s).1 (operation' s').1 ∧
      StoresMatch ρ w (operation s).2 (operation' s').2) :
    EffectsMatch ρ w scope R (Effect.onStore line operation) (Effect.onStore line operation') := by
  intro m m' hm
  obtain ⟨hr, hs⟩ := h _ _ hm.store
  have habreast : Abreast ρ w scope { m with store := (operation m.store).2 }
      { m' with store := (operation' m'.store).2 } := { hm with store := hs }
  unfold Effect.onStore
  dsimp only
  generalize (operation m.store).1 = result, (operation' m'.store).1 = result' at hr
  cases hr with
  | error => exact .failed (List.prefix_refl w) .same habreast
  | ok hr => exact .done (List.prefix_refl w) hr habreast

theorem onConsole (line : Nat) (operation : Console → Except Fault α × Console) :
    EffectsMatch ρ w scope (fun _ a a' => a' = a) (Effect.onConsole line operation)
      (Effect.onConsole line operation) := by
  intro m m' hm
  unfold Effect.onConsole
  rw [hm.console]
  rcases operation m.console with ⟨_ | a, c⟩
  · exact .failed (List.prefix_refl w) .same { hm with console := rfl }
  · exact .done (List.prefix_refl w) rfl { hm with console := rfl }

theorem within {inner : ScopeId} {effect effect' : Effect α}
    (h : EffectsMatch ρ w inner R effect effect') :
    EffectsMatch ρ w scope R (Effect.within inner effect) (Effect.within inner effect') := by
  intro m m' hm
  have hinside : Abreast ρ w inner { m with current := inner } { m' with current := inner } :=
    { hm with current := rfl, current' := rfl }
  have hbody := h _ _ hinside
  unfold Effect.within
  cases ha : effect { m with current := inner } <;> cases ha' : effect' { m' with current := inner } <;>
    rw [ha, ha'] at hbody <;> cases hbody
  case done.done.done hl hr habreast =>
    exact .done hl hr { habreast with current := hm.current, current' := hm.current' }
  case failed.failed.failed hl he habreast =>
    exact .failed hl he { habreast with current := hm.current, current' := hm.current' }
  case outOfFuel.outOfFuel.outOfFuel hl habreast =>
    exact .outOfFuel hl { habreast with current := hm.current, current' := hm.current' }

end EffectsMatch

end LoxLang
