import LoxLang.Proofs.Joining.Resolve
import LoxLang.Proofs.Joining.Syntax
import LoxLang.Proofs.Relabel.Session

/-!
# A sequence of runs as one program

A program that is run behind another one in a session does what it would do as the second part of one
joined program. Only its lines differ, and so do the lines of errors that blame one of its tokens.
-/

namespace LoxLang

/-! ## Moving the lines of the program that runs -/

/-- The machine with its functions on other lines. -/
def Machine.reline (move : Nat → Nat) (m : Machine) : Machine := { m with store := m.store.reline move }

/-- The machine with text printed before. -/
def Machine.behind (text : String) (m : Machine) : Machine := { m with console := m.console.behind text }

/-- The mark of a line in code that was there before the program. -/
def markEarlier (line : Nat) : Nat := 2 * line

/-- The mark of a line in the program itself. -/
def markOwn (line : Nat) : Nat := 2 * line + 1

/-- The line that a mark stands for when the lines of the program are moved. -/
def unmark (move : Nat → Nat) (mark : Nat) : Nat := if mark % 2 = 0 then mark / 2 else move (mark / 2)

section Marks
variable (move : Nat → Nat)

theorem unmark_markEarlier : unmark move ∘ markEarlier = id := by
  funext line
  have hmod : markEarlier line % 2 = 0 := Nat.mul_mod_right 2 line
  have hdiv : markEarlier line / 2 = line := Nat.mul_div_cancel_left line Nat.two_pos
  rw [Function.comp_apply, unmark, if_pos hmod, hdiv, id_eq]

theorem unmark_markOwn : unmark move ∘ markOwn = move := by
  funext line
  have hmod : markOwn line % 2 ≠ 0 := by
    unfold markOwn
    omega
  have hdiv : markOwn line / 2 = line := by
    unfold markOwn
    omega
  rw [Function.comp_apply, unmark, if_neg hmod, hdiv]

end Marks

section Moved
variable {fuel : Nat} {program : List Stmt} {next : NodeId} {m : Machine}

variable (fuel) in
/-- Every run of the program, with its lines moved and with text printed before, is like one run in which
the lines of the program and those of earlier code are told apart by marks. -/
theorem runProgram_marked (hm : m.store.Older next) (hp : ∀ id ∈ bodyIds program, id < next)
    (move : Nat → Nat) (printed : String) :
    EndsAlike ⟨.lines (unmark move), next, m.depths, m.depths, printed, fun _ _ => rfl⟩ Eq
      (runProgram fuel (relineBody markOwn program) (m.reline markEarlier))
      (runProgram fuel (relineBody move program) (m.behind printed)) := by
  let d : Difference := ⟨.lines (unmark move), next, m.depths, m.depths, printed, fun _ _ => rfl⟩
  have hstart : Twins d (m.reline markEarlier) (m.behind printed) := by
    constructor
    case store =>
      change m.store = (m.store.reline markEarlier).relabel (.lines (unmark move))
      rw [Store.relabel_lines, Store.reline_reline, unmark_markEarlier, Store.reline_id]
    case older =>
      change (m.store.reline markEarlier).Older next
      rw [← Store.relabel_lines]
      exact hm.relabel fun _ hid => hid
    all_goals rfl
  have hrun := alike_runProgram fuel (relineBody markOwn program) (d := d)
    (by rwa [relineBody_ids]) _ _ hstart
  rwa [relabelBody_lines, relineBody_relineBody, unmark_markOwn] at hrun

variable (fuel program m) in
/-- The run of the program fails at a token of the program: the line to blame follows the lines of the
program wherever they are moved. -/
def BlamesOwn (e : RuntimeError) : Prop :=
  ∀ move, ∃ after, runProgram fuel (relineBody move program) m = .failed ⟨e.fault, move e.line⟩ after

variable (fuel program m) in
/-- The run of the program fails at a token of earlier code: the line to blame is the same wherever the
lines of the program are moved. -/
def BlamesEarlier (e : RuntimeError) : Prop :=
  ∀ move, ∃ after, runProgram fuel (relineBody move program) m = .failed e after

variable (fuel program m) in
/-- How the program ends, and how it ends with its lines moved. -/
inductive EndsMoved (move : Nat → Nat) : Ending → Ending → Prop
  | completed : EndsMoved move .completed .completed
  | outOfFuel : EndsMoved move .outOfFuel .outOfFuel
  | own {e : RuntimeError} : BlamesOwn fuel program m e →
      EndsMoved move (.stopped e) (.stopped ⟨e.fault, move e.line⟩)
  | earlier {e : RuntimeError} : BlamesEarlier fuel program m e → EndsMoved move (.stopped e) (.stopped e)

theorem behind_nothing (m : Machine) : m.behind "" = m := by simp [Machine.behind, Console.behind]

theorem runProgram_moved_ending (hm : m.store.Older next) (hp : ∀ id ∈ bodyIds program, id < next)
    (move : Nat → Nat) (printed : String) :
    EndsMoved fuel program m move (runProgram fuel program m).ending
      (runProgram fuel (relineBody move program) (m.behind printed)).ending := by
  have hplain := runProgram_marked fuel hm hp id ""
  have hmoved := runProgram_marked fuel hm hp move printed
  rw [relineBody_id, behind_nothing] at hplain
  cases hmarked : runProgram fuel (relineBody markOwn program) (m.reline markEarlier) with
  | done u marked =>
    rw [hmarked] at hplain hmoved
    rw [hplain.ending, hmoved.ending]
    exact .completed
  | outOfFuel marked =>
    rw [hmarked] at hplain hmoved
    rw [hplain.ending, hmoved.ending]
    exact .outOfFuel
  | failed e marked =>
    rw [hmarked] at hplain hmoved
    rw [hplain.ending, hmoved.ending]
    have hfails (move : Nat → Nat) : ∃ after, runProgram fuel (relineBody move program) m =
        .failed ⟨e.fault, unmark move e.line⟩ after := by
      have h := runProgram_marked fuel hm hp move ""
      rw [behind_nothing, hmarked] at h
      exact h.failed_eq
    change EndsMoved fuel program m move (.stopped ⟨e.fault, unmark id e.line⟩)
      (.stopped ⟨e.fault, unmark move e.line⟩)
    -- An even mark is one of earlier code.
    by_cases heven : e.line % 2 = 0
    · have hline (move : Nat → Nat) : unmark move e.line = unmark id e.line := by
        simp only [unmark, if_pos heven]
      rw [hline move]
      refine .earlier fun move => ?_
      rw [← hline move]
      exact hfails move
    · have hline (move : Nat → Nat) : unmark move e.line = move (unmark id e.line) := by
        simp only [unmark, if_neg heven, id_eq]
      rw [hline move]
      refine .own fun move => ?_
      rw [← hline move]
      exact hfails move

end Moved

/-! ## A program and the one behind it -/

theorem runProgram_append {fuel : Nat} {program : List Stmt} {m after : Machine} {u : Unit}
    (h : runProgram fuel program m = .done u after) (rest : List Stmt) :
    runProgram fuel (program ++ rest) m = runProgram fuel rest after := by
  induction program generalizing m with
  | nil =>
    cases h
    rfl
  | cons s program ih =>
    have hstep (more : List Stmt) : runProgram fuel (s :: more) m =
        Effect.andThen (execute fuel s) (fun _ => runProgram fuel more) m := rfl
    rw [List.cons_append, hstep]
    rw [hstep] at h
    unfold Effect.andThen at h ⊢
    cases hs : execute fuel s m with
    | done flow between =>
      rw [hs] at h
      exact ih h
    | failed e between =>
      rw [hs] at h
      cases h
    | outOfFuel between =>
      rw [hs] at h
      cases h

section Joined
variable {session : Session} {first second : String} {program rest : List Stmt} {middle next : NodeId}

/-- The parts of a joined program without static errors make a program without static errors. -/
theorem Accepted.joined (h : Accepted session.nextId first program middle)
    (h' : Accepted middle second rest next) :
    Accepted session.nextId (joinedText first second)
      (program ++ relineBody (lineAfter first) rest) next where
  check := checkProgram_joinedText h.check h'.check
  errors := by rw [(resolve_append _ program rest).2, h.errors, h'.errors, List.map_nil, List.append_nil]

/-- While the first part of a joined program runs, the depths of the second part are noted already. They
make no difference, since no code in the machine has their identities. -/
theorem Accepted.runProgram_joined {fuel : Nat} {after : Machine} {u : Unit} (ho : session.Older)
    (h : Accepted session.nextId first program middle) (h' : Accepted middle second rest next)
    (hrun : runProgram fuel program (session.machine.noteAll (resolve program).notes) = .done u after) :
    runProgram fuel (program ++ relineBody (lineAfter first) rest)
        (session.machine.noteAll (resolve (program ++ relineBody (lineAfter first) rest)).notes) =
      runProgram fuel (relineBody (lineAfter first) rest)
        ((after.takeOutput.2.noteAll (resolve rest).notes).behind after.console.written) := by
  rw [(resolve_append (lineAfter first) program rest).1]
  let before := session.machine.noteAll (resolve program).notes
  let noted := before.noteAll (resolve rest).notes
  have hnotes : session.machine.noteAll ((resolve rest).notes ++ (resolve program).notes) = noted :=
    List.foldr_append ..
  have hagree : ∀ id < middle, noted.depths[id]? = before.depths[id]? := by
    intro id hid
    have hnone : noted? (resolve rest).notes id = none := by
      cases hn : noted? (resolve rest).notes id with
      | none => rfl
      | some depth =>
        have hbounds := h'.wellRead.numbered.bounds (noted_of_resolve hn)
        exact absurd hid (Nat.not_lt.2 hbounds.1)
    rw [noteAll_depths, hnone, Option.none_or]
  have hbefore : before.store.Older middle := by
    rw [noteAll_store]
    exact Store.Older.mono ho h.wellRead.numbered.le
  have hend := alike_runProgram fuel program
    (d := ⟨.same, middle, before.depths, noted.depths, "", hagree⟩) h.older _ _ (.noting hbefore _ hagree)
  rw [relabelBody_same, hrun] at hend
  obtain ⟨after', hrun', ht⟩ := hend.done_eq
  rw [hnotes, runProgram_append hrun', ht.eq]
  have hdepths : noted.depths = noteDepths after.depths (resolve rest).notes := by
    rw [ht.depths]
    exact congrArg Machine.depths (noteAll_eq ..)
  rw [noteAll_eq]
  simp only [Machine.behind, Console.behind, Machine.takeOutput, Store.relabel_same, hdepths,
    String.empty_append, String.append_empty]

end Joined

/-- If an error follows the lines of a program, its line is that of one of the tokens of the program. -/
theorem BlamesOwn.token {fuel : Nat} {first next : NodeId} {source : String} {program : List Stmt}
    {m : Machine} {e : RuntimeError} (hb : BlamesOwn fuel program m e)
    (h : Accepted first source program next) : ∃ t ∈ sourceWords source, t.line = e.line := by
  by_cases hfound : ∃ t ∈ sourceWords source, t.line = e.line
  · exact hfound
  -- Otherwise the line could be moved alone, which changes the error but not the program.
  · exfalso
    let move := fun line => if line = e.line then line + 1 else line
    have hwords : (sourceWords source).map (Token.reline move) = sourceWords source := by
      refine (List.map_congr_left fun t ht => ?_).trans (List.map_id _)
      have hne : t.line ≠ e.line := fun he => hfound ⟨t, ht, he⟩
      simp only [Token.reline, move, if_neg hne, id_eq]
    obtain ⟨hlexical, hspelled⟩ := checkProgram_eq_ok_iff.1 h.check
    have hsame : relineBody move program = program := by
      have hrespelled : SpellsBody first (sourceWords source) (relineBody move program) next := by
        rw [← hwords]
        exact hspelled.reline
      have hmoved := checkProgram_eq_ok_iff.2 ⟨hlexical, hrespelled⟩
      exact Except.ok.inj (Prod.mk.inj (hmoved.symm.trans h.check)).1
    obtain ⟨after, hplain⟩ := hb id
    obtain ⟨after', hmoved⟩ := hb move
    rw [relineBody_id] at hplain
    rw [hsame, hplain] at hmoved
    have hline : e.line = move e.line := congrArg RuntimeError.line (Outcome.failed.inj hmoved).1
    simp only [move, if_pos] at hline
    omega

/-- Sessions that differ in the lines of some of their functions only, which are moved in the second one.
All scopes are the same otherwise, that of the globals among them, and so are the lists and instances. The
depths, the input that is left and the clock are the same in any case. -/
structure SameButLines (move : Nat → Nat) (s s' : Session) : Prop where
  nextId : s'.nextId = s.nextId
  store : ∃ marked : Store,
    s.machine.store = marked.reline (unmark id) ∧ s'.machine.store = marked.reline (unmark move)
  globals : s'.machine.globals = s.machine.globals
  current : s'.machine.current = s.machine.current
  depths : s'.machine.depths = s.machine.depths
  console : s'.machine.console = s.machine.console
  clock : s'.machine.clock = s.machine.clock

/-- Up to lines, the values of all names in all scopes are the same. -/
theorem SameButLines.binding {move : Nat → Nat} {s s' : Session} (h : SameButLines move s s')
    (scope : ScopeId) (name : String) :
    (s'.machine.store.binding? scope name).map (Value.reline fun _ => 0) =
      (s.machine.store.binding? scope name).map (Value.reline fun _ => 0) := by
  obtain ⟨marked, hs, hs'⟩ := h.store
  rw [← Store.binding?_reline, ← Store.binding?_reline, hs, hs', Store.reline_reline, Store.reline_reline]
  rfl

theorem runProgram_moved_session {fuel : Nat} {program : List Stmt} {next : NodeId} {m : Machine}
    (hm : m.store.Older next) (hp : ∀ id ∈ bodyIds program, id < next) (move : Nat → Nat)
    (printed : String) :
    let outcome := runProgram fuel program m
    let moved := runProgram fuel (relineBody move program) (m.behind printed)
    moved.machine.takeOutput.1 = printed ++ outcome.machine.takeOutput.1 ∧
      SameButLines move ⟨outcome.machine.takeOutput.2, next⟩ ⟨moved.machine.takeOutput.2, next⟩ := by
  have hplain := (runProgram_marked fuel hm hp id "").twins
  have hmoved := (runProgram_marked fuel hm hp move printed).twins
  rw [relineBody_id, behind_nothing] at hplain
  generalize (runProgram fuel (relineBody markOwn program) (m.reline markEarlier)).machine = marked at *
  have hwritten : (runProgram fuel program m).machine.console = marked.console := by
    rw [hplain.console]
    simp [Console.behind]
  dsimp only [Machine.takeOutput]
  rw [hwritten, hmoved.console]
  refine ⟨rfl, ?_⟩
  constructor
  case nextId => rfl
  case store =>
    have hplainStore := hplain.store.trans (Store.relabel_lines _)
    have hmovedStore := hmoved.store.trans (Store.relabel_lines _)
    exact ⟨marked.store, hplainStore, hmovedStore⟩
  case globals => exact hmoved.globals.trans hplain.globals.symm
  case current => exact hmoved.current.trans hplain.current.symm
  case depths => exact hmoved.depths'.trans hplain.depths'.symm
  case console => rfl
  case clock => exact hmoved.clock.trans hplain.clock.symm

/-- A program that is run after another one, in any session, does what it does as the second part of a
joined program. Its runtime errors have their lines moved just if they blame one of its own tokens. -/
theorem joined_program_runs_like_its_parts (console : Console) (clock : Clock)
    (history : List (Nat × String)) (fuel : Nat) (first second : String) :
    let session := (Session.start console clock).runs history
    let ran := session.runWith fuel first
    let ran' := ran.2.runWith fuel second
    let joined := session.runWith fuel (joinedText first second)
    ran.1.ending = .completed → (∀ errors, ran'.1.ending ≠ .rejected errors) →
      ∃ program next, Accepted ran.2.nextId second program next ∧
        (let m := ran.2.machine.noteAll (resolve program).notes
        EndsMoved fuel program m (lineAfter first) ran'.1.ending joined.1.ending ∧
        ∀ e, BlamesOwn fuel program m e → ∃ t ∈ sourceWords second, t.line = e.line) ∧
        joined.1.output = ran.1.output ++ ran'.1.output ∧
        SameButLines (lineAfter first) ran'.2 joined.2 := by
  intro session
  dsimp only
  intro hcompleted haccepted
  have ho : session.Older := Session.older_runs console clock history
  have hfirst : ∀ errors, (session.runWith fuel first).1.ending ≠ .rejected errors := by
    rw [hcompleted]
    exact fun _ h => by cases h
  obtain ⟨program, middle, hp⟩ := accepted_of_not_rejected hfirst
  rw [hp.runWith fuel] at hcompleted haccepted ⊢
  dsimp only at hcompleted haccepted ⊢
  cases hrun : runProgram fuel program (session.machine.noteAll (resolve program).notes) with
  | failed e after =>
    rw [hrun] at hcompleted
    cases hcompleted
  | outOfFuel after =>
    rw [hrun] at hcompleted
    cases hcompleted
  | done u after =>
    rw [hrun] at haccepted
    obtain ⟨rest, next, hq⟩ := accepted_of_not_rejected haccepted
    have hbetween : (after.takeOutput.2.noteAll (resolve rest).notes).store.Older next := by
      have hran := ho.runWith fuel first
      rw [hp.runWith fuel, hrun] at hran
      rw [noteAll_store]
      exact Store.Older.mono hran hq.wellRead.numbered.le
    rw [hq.runWith fuel, (hp.joined hq).runWith fuel, hp.runProgram_joined ho hq hrun]
    refine ⟨rest, next, hq, ⟨?_, fun e he => he.token hq⟩, ?_⟩
    · exact runProgram_moved_ending hbetween hq.older (lineAfter first) after.console.written
    · exact runProgram_moved_session hbetween hq.older (lineAfter first) after.console.written

/-- The error of a program that reads an undefined name, behind one that calls a function of a third. -/
theorem joined_program_runs_like_its_parts_undefined :
    ∃ program m, EndsMoved 20 program m (lineAfter "var a = 1;\nprint(f());")
      (.stopped ⟨.undefinedVariable "b", 1⟩) (.stopped ⟨.undefinedVariable "b", 3⟩) := by
  let history := [(20, "fun f() \x7b return a; \x7d")]
  let session := (Session.start {} (fun _ => 0)).runs history
  let first := "var a = 1;\nprint(f());"
  let second := "print(b);"
  have hcompleted : (session.runWith 20 first).1.ending = .completed := by decide +kernel
  have hstopped : ((session.runWith 20 first).2.runWith 20 second).1.ending =
      .stopped ⟨.undefinedVariable "b", 1⟩ := by decide +kernel
  have hjoined : (session.runWith 20 (joinedText first second)).1.ending =
      .stopped ⟨.undefinedVariable "b", 3⟩ := by decide +kernel
  obtain ⟨program, _, _, ⟨hends, _⟩, _⟩ :=
    joined_program_runs_like_its_parts {} (fun _ => 0) history 20 first second hcompleted fun errors h => by
      rw [hstopped] at h
      cases h
  rw [hstopped, hjoined] at hends
  exact ⟨program, _, hends⟩

end LoxLang
