import LoxLang.Proofs.Scoping.Account
import LoxLang.Proofs.Visits

/-!
# The invariant at every task

Every task of a run is begun at a good moment: an expression or a statement at the place at which it stands in one
of the programs, a call with values that the programs have made and with as many arguments as there are
parameters. All values that are held around it belong to the programs as well.
-/

namespace LoxLang

/-! ## How a task ends -/

/-- The outcome is that of a good and later moment, and what it yields belongs to the programs. -/
structure EndsAt (programs : List (List Stmt)) (now now' : Moment) (outcome : Outcome (List Value)) :
    Prop where
  machine : now'.machine = outcome.machine
  good : Good programs now'
  later : ∃ own, Later own now now'
  values : GoodValues programs now' outcome.values

section
variable {programs : List (List Stmt)} {own : Option ScopeId} {now : Moment}

theorem Ends.endsAt {t : Traced Event (List Value)} {effect : Effect (List Value)}
    (he : Ends programs own t now fun values now' => GoodValues programs now' values)
    (hw : Watches t effect) : EndsAt programs now (t.after now) (effect now.machine) := by
  have hdone := hw.outcome now.machine
  refine ⟨congrArg Outcome.machine hdone, he.good, ⟨own, he.later⟩, ?_⟩
  cases hr : effect now.machine with
  | done values after => exact he.yields values after (hdone.trans hr)
  | failed e after => exact .nil
  | outOfFuel after => exact .nil

theorem Ends.value_endsAt {t : Traced Event Value} {effect : Effect Value}
    (he : Ends programs own t now fun value now' => GoodValue programs now' value)
    (hw : Watches t effect) :
    ∃ now', EndsAt programs now now' ((effect >>= fun value => pure [value]) now.machine) := by
  have hvalues : Ends programs own (t >>= fun value => pure [value]) now fun values now' =>
      GoodValues programs now' values := he.bind fun _ _ hg' _ hv => .yield hg' (.single hv)
  exact ⟨_, hvalues.endsAt (hw.bind fun _ => .yield _)⟩

theorem Ends.flow_endsAt {t : Traced Event Flow} {effect : Effect Flow}
    (he : Ends programs own t now (Returns programs)) (hw : Watches t effect) :
    ∃ now', EndsAt programs now now' ((effect >>= fun flow => pure flow.values) now.machine) := by
  have hvalues : Ends programs own (t >>= fun flow => pure flow.values) now fun values now' =>
      GoodValues programs now' values := by
    apply he.bind
    intro flow now' hg' _ hr
    cases flow with
    | normal => exact .yield hg' .nil
    | returned value => exact .yield hg' (.single (hr value rfl))
  exact ⟨_, hvalues.endsAt (hw.bind fun _ => .yield _)⟩

theorem Task.Due.endsAt (fuel : Nat) {task : Task} (hg : Good programs now) (h : task.Due programs now) :
    ∃ now', EndsAt programs now now' (task.run fuel now.machine) := by
  have hkeeps := keeps programs fuel
  have hwatches := traced_watches fuel
  cases task with
  | evaluate e =>
    obtain ⟨program, hp, c, hs, hc⟩ := h
    exact (hkeeps.evaluate hg hp hs hc).value_endsAt (hwatches.evaluate e)
  | evaluateAll es =>
    obtain ⟨program, hp, c, hs, hc⟩ := h
    exact ⟨_, (hkeeps.evaluateAll hg hp hs hc).endsAt (hwatches.evaluateAll es)⟩
  | call callee arguments line =>
    exact (hkeeps.call hg h.1 h.2).value_endsAt (hwatches.call callee arguments line)
  | callClosure f arguments =>
    exact (hkeeps.callClosure hg h.1 h.2.1 h.2.2).value_endsAt (hwatches.callClosure f h.2.2)
  | instantiate class_ arguments =>
    exact (hkeeps.instantiate hg h.1 h.2.1 h.2.2).value_endsAt (hwatches.instantiate class_ h.2.2)
  | execute s =>
    obtain ⟨program, hp, c, hs, hc⟩ := h
    have hends := (hkeeps.execute hg hp hs hc).imp fun _ _ _ h => h.returns
    exact hends.flow_endsAt (hwatches.execute s)
  | executeAll body =>
    obtain ⟨program, hp, c, hs, hc⟩ := h
    exact (hkeeps.executeAll hg hp hs hc).flow_endsAt (hwatches.executeAll body)
  | executeLoop condition body =>
    obtain ⟨program, hp, c, hs, hc⟩ := h
    have hends := (hkeeps.executeLoop hg hp hs hc).imp fun _ _ _ h => h.returns
    exact hends.flow_endsAt (hwatches.executeLoop condition body)

end

/-! ## All tasks -/

/-- The task is begun at a good moment. -/
structure Visit.Sound (visit : Visit) (programs : List (List Stmt)) (now : Moment) : Prop where
  machine : now.machine = visit.machine
  good : Good programs now
  due : visit.task.Due programs now
  held : GoodValues programs now visit.held

/-- The task is begun at a good moment, at which the values of now are still what they are. -/
def Visit.SoundFrom (visit : Visit) (programs : List (List Stmt)) (now : Moment) : Prop :=
  ∃ now', visit.Sound programs now' ∧ ∀ value, GoodValue programs now value → GoodValue programs now' value

/-- All tasks that are noted are begun at good moments. -/
def AllSound (programs : List (List Stmt)) {α : Type} (now : Moment) (t : Traced Visit α) : Prop :=
  ∀ visit ∈ (t now.machine).2, visit.SoundFrom programs now

section
variable {programs : List (List Stmt)} {own : Option ScopeId} {now now' : Moment} {α : Type} {t : Traced Visit α}

theorem Visit.SoundFrom.earlier {visit : Visit} (h : visit.SoundFrom programs now') (hl : Later own now now') :
    visit.SoundFrom programs now := by
  obtain ⟨now'', hsound, hvalues⟩ := h
  exact ⟨now'', hsound, fun value hv => hvalues value (hv.later hl)⟩

theorem AllSound.within {scope : ScopeId} (h : AllSound programs (now.at scope) t) :
    AllSound programs now (.within scope t) := by
  unfold AllSound
  rw [Traced.within_notes]
  intro visit hv
  obtain ⟨now', hsound, hvalues⟩ := h visit hv
  exact ⟨now', hsound, fun value hg => hvalues value (hg.at scope)⟩

theorem AllSound.holding {values : List Value} (hh : GoodValues programs now values) (h : AllSound programs now t) :
    AllSound programs now (visitNotes.operations.holding values t) := by
  intro visit hv
  obtain ⟨inner, hinner, rfl⟩ := List.mem_map.1 hv
  obtain ⟨now', hsound, hvalues⟩ := h inner hinner
  have hheld : GoodValues programs now' (inner.held ++ values) :=
    List.forall_mem_append.2 ⟨hsound.held, fun value hm => hvalues value (hh value hm)⟩
  exact ⟨now', ⟨hsound.machine, hsound.good, hsound.due, hheld⟩, hvalues⟩

theorem AllSound.entering {fuel : Nat} {task : Task} (hg : Good programs now) (hd : task.Due programs now)
    (h : AllSound programs now t) : AllSound programs now (visitNotes.operations.entering fuel task t) :=
  List.forall_mem_cons.2 ⟨⟨now, ⟨rfl, hg, hd, .nil⟩, fun _ hv => hv⟩, h⟩

end

/-- The account of all tasks. -/
def soundAccount (programs : List (List Stmt)) : Account programs visitNotes where
  Always t := ∀ m, ∀ visit ∈ (t m).2, False
  Holds now t := AllSound programs now t
  holds now h visit hv := (h now.machine visit hv).elim
  pure _ _ := List.forall_mem_nil _
  silent _ _ := List.forall_mem_nil _
  bind h hn m := Traced.forall_notes_bind (h m) fun a after _ => hn a after
  depthOf _ _ _ := List.forall_mem_nil _
  openScope _ _ := List.forall_mem_nil _
  assign _ _ _ _ := List.forall_mem_nil _
  conclude _ _ _ := List.forall_mem_nil _
  define _ _ := List.forall_mem_nil _
  andThen h hn := Traced.forall_notes_bind h fun a after _ visit hv => (hn a after visit hv).elim
  next {_ _ now _ _ trace _ _ _} h hw he ht hn := by
    apply Traced.forall_notes_bind h
    intro a after hr visit hv
    have hdone : (trace now.machine).1 = .done a after := (ht.outcome _).trans ((hw.outcome _).symm.trans hr)
    have hmachine : (trace.after now).machine = after := congrArg Outcome.machine hdone
    rw [← hmachine] at hv
    exact (hn a _ he.good he.later (he.yields a after hdone) visit hv).earlier he.later
  within h := h.within
  holding hh h := h.holding hh
  entering _ _ hg hd h := h.entering hg hd

/-- The tasks of one program, run in a session. -/
theorem Chronicle.Sane.visitsWith {c : Chronicle} (h : c.Sane) (fuel : Nat) (source : String) :
    ∀ visit ∈ c.session.visitsWith fuel source, ∃ programs now, visit.Sound programs now := by
  unfold Session.visitsWith
  rcases hcheck : checkProgram source c.session.nextId with ⟨_ | program, next⟩
  · exact List.forall_mem_nil _
  · obtain ⟨depths, hd⟩ := noteAll_machine c.session.machine (resolve program).notes
    dsimp only
    rw [hd]
    split
    · exact List.forall_mem_nil _
    · rename_i herrors
      have hsound : (resolve program).errors = [] := by simpa using herrors
      obtain ⟨hgood, hcurrent⟩ := h.begins (wellRead_of_checkProgram hcheck) hd hsound
      intro visit hv
      obtain ⟨now, hvisit, -⟩ := (soundAccount (program :: c.programs)).runProgram fuel List.mem_cons_self .program
        rfl hgood hcurrent visit hv
      exact ⟨_, now, hvisit⟩

/-- Every task of a session is begun at a good moment. -/
theorem Chronicle.Sane.visits {c : Chronicle} (h : c.Sane) (runs : List (Nat × String)) :
    ∀ visit ∈ c.session.visits runs, ∃ programs now, visit.Sound programs now := by
  induction runs generalizing c with
  | nil => exact List.forall_mem_nil _
  | cons first rest ih =>
    obtain ⟨fuel, source⟩ := first
    intro visit hv
    rcases List.mem_append.1 hv with hv | hv
    · exact h.visitsWith fuel source visit hv
    · rw [← Chronicle.run_session] at hv
      exact ih (h.run fuel source) visit hv

end LoxLang
