import LoxLang.Proofs.Writing.Rules

/-!
# Local scopes are written once

Over a whole session, with all programs that were accepted and with calls of closures from earlier programs, no
scope but the globals has a name defined in it a second time. What a closure finds in the scopes around it
changes by assignments only.
-/

namespace LoxLang

/-- The writes of one program, run in a session, are all that it does to the scopes. -/
theorem Chronicle.Sane.wrote {c : Chronicle} (h : c.Sane) (fuel : Nat) (source : String) :
    Wrote (c.session.writesWith fuel source) c.session.machine
      (c.session.runWith fuel source).2.machine := by
  unfold Session.writesWith Session.runWith
  rcases hcheck : checkProgram source c.session.nextId with ⟨_ | program, next⟩
  · exact .nothing (.refl _)
  · have hr := wellRead_of_checkProgram hcheck
    obtain ⟨depths, hd⟩ := noteAll_machine c.session.machine (resolve program).notes
    dsimp only
    rw [hd]
    split
    · exact .nothing ⟨rfl, rfl⟩
    · rename_i herrors
      have hsound : (resolve program).errors = [] := by simpa using herrors
      obtain ⟨hgood, hcurrent⟩ := h.begins hr hd hsound
      have hlogged : Logged ((writeNotes.evaluator fuel).runProgram program)
          { c.session.machine with depths } :=
        (writeAccount (program :: c.programs)).runProgram fuel List.mem_cons_self .program rfl hgood hcurrent
      unfold Logged at hlogged
      rw [(watches_runProgram writeNotes fuel program).outcome] at hlogged
      exact ⟨hlogged.globals, hlogged.bindings, hlogged.once⟩

theorem Chronicle.Sane.writes {c : Chronicle} (h : c.Sane) (runs : List (Nat × String)) :
    Wrote (c.session.writes runs) c.session.machine (c.session.runs runs).machine := by
  induction runs generalizing c with
  | nil => exact .nothing (.refl _)
  | cons first rest ih =>
    obtain ⟨fuel, source⟩ := first
    have hrest := ih (h.run fuel source)
    rw [Chronicle.run_session] at hrest
    exact (h.wrote fuel source).trans hrest

/-- In every scope but the globals a name is defined at most once, over any programs that a session runs one
after the other, however each of them ends. The writes in question are all that happens to the bindings of
scopes: made again in order, they lead from the bindings at the start to those at the end. So what is
written to a local name that is bound already is always an assignment. -/
theorem local_names_are_defined_once (console : Console) (clock : Clock) (runs : List (Nat × String)) :
    let start := Session.start console clock
    let writes := start.writes runs
    (start.runs runs).machine.store.binding? = replay writes start.machine.store.binding? ∧
      (∀ scope name, scope ≠ start.machine.globals → writes.countP (Write.defines scope name) ≤ 1) ∧
      ∀ front w back, writes = front ++ w :: back → w.scope ≠ start.machine.globals →
        (replay front start.machine.store.binding? w.scope w.name).isSome → w.kind = .assignment := by
  have h := (Chronicle.sane_start console clock).writes runs
  exact ⟨h.bindings, fun _ _ hs => h.once.countP_le_one hs, fun _ _ _ he hs hb => h.once.assigned he hs hb⟩

/-- Every turn of a loop opens a scope of its own for the block that is its body. -/
example : ((Session.start {} (fun _ => 0)).writes
    [(20, "\x7b var i = 0; while (i < 2) \x7b var j = i; i = j + 1; \x7d \x7d")]).map
      (fun w => (w.kind, w.scope, w.name)) =
    [(.definition, 1, "i"), (.definition, 2, "j"), (.assignment, 1, "i"), (.definition, 3, "j"),
      (.assignment, 1, "i")] := by decide +kernel

end LoxLang
