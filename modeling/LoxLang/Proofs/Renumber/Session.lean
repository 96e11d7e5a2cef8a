import LoxLang.Proofs.Relabel.Session
import LoxLang.Proofs.Renumber.Extension
import LoxLang.Proofs.Restoring

/-!
# Sessions without dangling references

No program makes a reference to an entry that is not there, with whatever fuel it is run and however it ends.
So the machine of a session is sound before and behind each of its programs, and at every statement of them.
-/

namespace LoxLang

theorem Shadows.sound {α : Type} {g : Gap} {m : Machine} {R : Extent → α → α → Prop} {o o' : Outcome α}
    (h : Shadows g m R o o') : o.machine.Sound := by
  cases h with
  | done hb => exact hb.sound
  | failed hb => exact hb.sound
  | outOfFuel hs => exact hs

theorem runProgram_sound {m : Machine} (h : m.Sound) (fuel : Nat) (program : List Stmt) :
    (runProgram fuel program m).machine.Sound :=
  (shadows_runProgram .empty (Nat.le_refl fuel) h.beside_self program).sound

/-! ## Sessions -/

theorem noteAll_sound {m : Machine} (h : m.Sound) (notes : List Note) : (m.noteAll notes).Sound := by
  obtain ⟨hcurrent, hglobals⟩ := noteAll_scopes m notes
  have hstore := noteAll_store m notes
  constructor
  case store => exact hstore.symm ▸ h.store
  case current => exact hcurrent.symm ▸ hstore.symm ▸ h.current
  case globals => exact hglobals.symm ▸ hstore.symm ▸ h.globals

theorem runWith_sound {session : Session} (h : session.machine.Sound) (fuel : Nat) (source : String) :
    (session.runWith fuel source).2.machine.Sound := by
  unfold Session.runWith
  rcases checkProgram source session.nextId with ⟨errors | program, nextId⟩
  · exact h
  · have hnoted := noteAll_sound h (resolve program).notes
    dsimp only
    split
    · exact hnoted
    · have hrun := runProgram_sound hnoted fuel program
      exact ⟨hrun.store, hrun.current, hrun.globals⟩

theorem defineAll_sound {m : Machine} (h : m.Sound) (scope : ScopeId) (builtins : List Builtin) :
    Machine.Sound { m with
      store := builtins.foldl (fun s builtin => s.define scope builtin.name (.builtin builtin)) m.store } := by
  induction builtins generalizing m with
  | nil => exact h
  | cons builtin rest ih =>
    have hwithin (x : Extent) : (Value.builtin builtin).Within x := trivial
    have hdefined : Machine.Sound { m with
        store := m.store.define scope builtin.name (.builtin builtin) } :=
      (overwrites_define hwithin scope builtin.name).sound h
    exact ih hdefined

theorem start_sound (console : Console) (clock : Clock) : (Machine.start console clock).Sound := by
  have hempty : Store.Refers ⟨1, 0, 0, 0⟩ {} := by
    constructor
    case bindings => exact fun i scope hs => nomatch hs
    case inward => exact fun i scope outer hs => nomatch hs
    case items => exact fun i items hs => nomatch hs
    case fields => exact fun i fields hs => nomatch hs
  have hstore : (Store.newScope {} [] none).2.Sound :=
    hempty.newScope (List.forall_mem_nil _) fun outer ho => nomatch ho
  have hfirst : Machine.Sound
      { store := (Store.newScope {} [] none).2, current := 0, globals := 0, console, clock } :=
    ⟨hstore, Nat.zero_lt_one, Nat.zero_lt_one⟩
  exact defineAll_sound hfirst 0 Builtin.all

/-- Behind any programs, each run with an amount of fuel of its own, no reference dangles. -/
theorem runs_sound (console : Console) (clock : Clock) (runs : List (Nat × String)) :
    ((Session.start console clock).runs runs).machine.Sound := by
  have hall (session : Session) (h : session.machine.Sound) : (session.runs runs).machine.Sound := by
    induction runs generalizing session with
    | nil => exact h
    | cons first rest ih => exact ih _ (runWith_sound h first.1 first.2)
  exact hall _ (start_sound console clock)

end LoxLang
