import LoxLang.Proofs.Relabel.Run
import LoxLang.Proofs.Scoping.Session

/-!
# Sessions and the age of code

A run without static errors is that of a program with its notes. All code that a session holds is older than
the next identity, so nothing that is noted for newer identities makes a difference to it.
-/

namespace LoxLang

/-! ## What a run does -/

/-- How a program that was run ends. -/
def Outcome.ending {α : Type} : Outcome α → Ending
  | done _ _ => .completed
  | failed error _ => .stopped error
  | outOfFuel _ => .outOfFuel

/-- The text is that of a program without static errors. -/
structure Accepted (first : NodeId) (source : String) (program : List Stmt) (next : NodeId) : Prop where
  check : checkProgram source first = (.ok program, next)
  errors : (resolve program).errors = []

section Runs
variable {session : Session} {source : String} {program : List Stmt} {next : NodeId}

theorem Accepted.runWith (h : Accepted session.nextId source program next) (fuel : Nat) :
    session.runWith fuel source =
      let outcome := runProgram fuel program (session.machine.noteAll (resolve program).notes)
      (⟨outcome.ending, outcome.machine.takeOutput.1⟩, ⟨outcome.machine.takeOutput.2, next⟩) := by
  unfold Session.runWith
  rw [h.check]
  dsimp only
  rw [h.errors]
  cases runProgram fuel program (session.machine.noteAll (resolve program).notes) <;> rfl

/-- A text that is not read costs identities only. -/
theorem runWith_unread {errors : List StaticError}
    (h : checkProgram source session.nextId = (.error errors, next)) (fuel : Nat) :
    session.runWith fuel source = (⟨.rejected errors, ""⟩, { session with nextId := next }) := by
  unfold Session.runWith
  rw [h]

/-- A program that breaches the rules on names leaves depths behind. -/
theorem runWith_unsound (h : checkProgram source session.nextId = (.ok program, next))
    (he : (resolve program).errors ≠ []) (fuel : Nat) :
    session.runWith fuel source = (⟨.rejected (resolve program).errors.reverse, ""⟩,
      ⟨session.machine.noteAll (resolve program).notes, next⟩) := by
  unfold Session.runWith
  rw [h]
  dsimp only
  rw [if_pos (by simpa using he)]

/-- How a program ends makes no difference to the identities behind it. -/
theorem runWith_nextId (session : Session) (fuel : Nat) (source : String) :
    (session.runWith fuel source).2.nextId = (checkProgram source session.nextId).2 := by
  rcases hc : checkProgram source session.nextId with ⟨errors | program, next⟩
  · rw [runWith_unread hc]
  · by_cases he : (resolve program).errors = []
    · rw [Accepted.runWith ⟨hc, he⟩]
    · rw [runWith_unsound hc he]

/-- A run without static errors is that of an accepted program. -/
theorem accepted_of_not_rejected {fuel : Nat}
    (h : ∀ errors, (session.runWith fuel source).1.ending ≠ .rejected errors) :
    ∃ program next, Accepted session.nextId source program next := by
  rcases hc : checkProgram source session.nextId with ⟨errors | program, next⟩
  · rw [runWith_unread hc] at h
    exact absurd rfl (h errors)
  · by_cases he : (resolve program).errors = []
    · exact ⟨program, next, hc, he⟩
    · rw [runWith_unsound hc he] at h
      exact absurd rfl (h _)

theorem Accepted.wellRead {first : NodeId} (h : Accepted first source program next) :
    WellRead first program next := wellRead_of_checkProgram h.check

theorem Accepted.older {first : NodeId} (h : Accepted first source program next) :
    ∀ id ∈ bodyIds program, id < next := fun _ hid => (h.wellRead.numbered.bounds hid).2

end Runs

/-! ## Older code in sessions -/

/-- All references of the functions in the machine have identities that were given out before. -/
def Session.Older (session : Session) : Prop := session.machine.store.Older session.nextId

/-- Depths with notes added to them. -/
def noteDepths (depths : Depths) (notes : List Note) : Depths :=
  notes.foldr (fun note depths => depths.insert note.id note.depth) depths

theorem noteAll_eq (m : Machine) (notes : List Note) :
    m.noteAll notes = { m with depths := noteDepths m.depths notes } := by
  unfold Machine.noteAll noteDepths
  induction notes with
  | nil => rfl
  | cons note rest ih =>
    rw [List.foldr_cons, ih]
    rfl

theorem noteAll_store (m : Machine) (notes : List Note) : (m.noteAll notes).store = m.store := by
  rw [noteAll_eq]

/-- Depths that no code in the machine has a reference for make no difference. -/
theorem Twins.noting {m : Machine} {next : NodeId} (h : m.store.Older next) (notes : List Note)
    (hagree : ∀ id < next, (m.noteAll notes).depths[id]? = m.depths[id]?) :
    Twins ⟨.same, next, m.depths, (m.noteAll notes).depths, "", hagree⟩ m (m.noteAll notes) := by
  have heq := noteAll_eq m notes
  generalize m.noteAll notes = noted at hagree heq ⊢
  subst heq
  constructor
  case store => exact m.store.relabel_same.symm
  case older => exact h
  case console => simp [Console.behind]
  all_goals rfl

section Alike
variable {α : Type} {d : Difference} {R : α → α → Prop} {outcome outcome' : Outcome α}

/-- The ending with the line of its error moved. -/
def Ending.reline (move : Nat → Nat) : Ending → Ending
  | stopped e => .stopped ⟨e.fault, move e.line⟩
  | ending => ending

theorem EndsAlike.ending (h : EndsAlike d R outcome outcome') :
    outcome'.ending = outcome.ending.reline d.label.line := by
  cases h <;> rfl

theorem Twins.eq {m m' : Machine} (h : Twins d m m') :
    m' = ⟨m.store.relabel d.label, m.current, m.globals, d.depths', m.console.behind d.printed, m.clock⟩ := by
  obtain ⟨hstore, -, hcurrent, hglobals, -, hdepths, hconsole, hclock⟩ := h
  cases m'
  simp_all

theorem EndsAlike.done_eq {a : α} {m : Machine} (h : EndsAlike d Eq (.done a m) outcome') :
    ∃ after, outcome' = .done a after ∧ Twins d m after := by
  cases h with
  | done ha ht => exact ⟨_, by rw [ha], ht⟩

theorem EndsAlike.failed_eq {e : RuntimeError} {m : Machine} (h : EndsAlike d R (.failed e m) outcome') :
    ∃ after, outcome' = .failed ⟨e.fault, d.label.line e.line⟩ after := by
  cases h with
  | failed _ => exact ⟨_, rfl⟩

theorem EndsAlike.twins (h : EndsAlike d R outcome outcome') : Twins d outcome.machine outcome'.machine := by
  cases h with
  | done _ ht => exact ht
  | failed ht => exact ht
  | outOfFuel ht => exact ht

end Alike

theorem Session.Older.runWith {session : Session} (h : session.Older) (fuel : Nat) (source : String) :
    (session.runWith fuel source).2.Older := by
  rcases hc : checkProgram source session.nextId with ⟨errors | program, next⟩
  · have hle := le_checkProgram source session.nextId
    rw [hc] at hle
    rw [runWith_unread hc]
    exact h.mono hle
  · have hnext : (session.machine.noteAll (resolve program).notes).store.Older next := by
      rw [noteAll_store]
      exact Store.Older.mono h (wellRead_of_checkProgram hc).numbered.le
    by_cases he : (resolve program).errors = []
    · have haccepted : Accepted session.nextId source program next := ⟨hc, he⟩
      rw [haccepted.runWith]
      have hrun := alike_runProgram fuel program (d := ⟨.same, next, _, _, "", fun _ _ => rfl⟩)
        haccepted.older _ _ (.noting hnext [] fun _ _ => rfl)
      exact hrun.twins.older
    · rw [runWith_unsound hc he]
      exact hnext

theorem Session.older_runs (console : Console) (clock : Clock) (history : List (Nat × String)) :
    ((Session.start console clock).runs history).Older := by
  have hstart : (Session.start console clock).Older := by
    have hi := initial_start console clock
    constructor
    · exact fun scope name value hb => (hi.bindings scope name value hb).older _
    · intro list value hm
      unfold Store.items at hm
      rw [show (Session.start console clock).machine.store.lists = #[] from hi.lists] at hm
      cases Array.not_mem_empty value hm
    · intro object name value hf
      unfold Store.field? at hf
      rw [show (Session.start console clock).machine.store.instances = #[] from hi.instances] at hf
      cases hf
  generalize Session.start console clock = session at hstart
  unfold Session.runs
  induction history generalizing session with
  | nil => exact hstart
  | cons run rest ih => exact ih _ (hstart.runWith run.1 run.2)

end LoxLang
