import LoxLang.Proofs.Isolation.Reading
import LoxLang.Proofs.Relabel.Resolve
import LoxLang.Proofs.Relabel.Session

/-!
# Rejected programs in a session

A program with a static error leaves two traces in a session: the identities of its references are used up,
and depths may be noted for them. No later program can tell. Its own identities are all larger by the number
of those that were used up, and no code is left that has the identities in between.
-/

namespace LoxLang

/-! ## Static errors -/

theorem Lexeme.error_phase {l : Lexeme} {line : Nat} {item : ScanItem} (hm : item ∈ l.items line)
    {e : StaticError} (he : item.error? = some e) : e.phase = .lexical := by
  rcases List.mem_append.1 hm with hm | hm
  · obtain ⟨bad, -, rfl⟩ := List.mem_map.1 hm
    cases he
    rfl
  · split at hm <;> simp only [List.not_mem_nil, List.mem_singleton] at hm <;> subst hm <;> cases he
    rfl

theorem lexicalErrors_phase (source : String) : ∀ e ∈ lexicalErrors source, e.phase = .lexical := by
  have hitems (line : Nat) (ls : List Lexeme) :
      ∀ item ∈ itemsFrom line ls, ∀ e, item.error? = some e → e.phase = .lexical := by
    induction ls generalizing line with
    | nil => simp [itemsFrom, ScanItem.error?]
    | cons l rest ih =>
      intro item hm e he
      rcases List.mem_append.1 hm with hm | hm
      · exact Lexeme.error_phase hm he
      · exact ih _ item hm e he
  intro e he
  obtain ⟨item, hm, he⟩ := List.mem_filterMap.1 he
  exact hitems 1 _ item hm e he

section
variable {source : String} {first next : NodeId} {errors : List StaticError}

/-- A text that is not read has errors, all of the scanner or all of the grammar. -/
theorem checkProgram_phase (h : checkProgram source first = (.error errors, next)) :
    errors ≠ [] ∧ ∃ phase, ∀ e ∈ errors, e.phase = phase := by
  unfold checkProgram at h
  have hlexical := lexicalErrors_phase source
  cases hl : lexicalErrors source with
  | nil =>
    rw [hl] at h
    have hresult : (parse (tokens source) first).result = .error errors := congrArg Prod.fst h
    unfold Parsing.result at hresult
    split at hresult
    · cases hresult
    · rename_i hsome
      cases hresult
      exact ⟨by simpa using hsome, .grammar, parse_phase (tokens source) first⟩
  | cons e rest =>
    rw [hl] at h hlexical
    cases h
    exact ⟨List.cons_ne_nil e rest, .lexical, hlexical⟩

theorem checkProgram_shift (source : String) (first count : NodeId) :
    checkProgram source (first + count) =
      ((checkProgram source first).1.map (relabelBody (.shift count)),
        (checkProgram source first).2 + count) := by
  have hparse := parse_shift (tokens source) first count
  unfold checkProgram
  cases lexicalErrors source with
  | cons e rest => rfl
  | nil =>
    dsimp only
    rw [hparse]
    unfold Parsing.result
    dsimp only
    split <;> rfl

theorem resolve_phase (program : List Stmt) : ∀ e ∈ (resolve program).errors, e.phase = .scope := by
  obtain ⟨_, _, _, found, hfound, hphase⟩ := stmts_grows {} program {}
  intro e he
  have hmem : e ∈ found := by
    have herrors : (resolve program).errors = found ++ [] := hfound
    rwa [herrors, List.append_nil] at he
  exact hphase e hmem

end

/-! ## Sessions with other labels -/

/-- Sessions that differ in the identities of the references only, and in the depths that are noted for
identities without a reference. -/
structure Mirrors (l : Relabelling) (s s' : Session) : Prop where
  older : s.Older
  store : s'.machine.store = s.machine.store.relabel l
  current : s'.machine.current = s.machine.current
  globals : s'.machine.globals = s.machine.globals
  depths : ∀ id, s'.machine.depths[l.id id]? = s.machine.depths[id]?
  console : s'.machine.console = s.machine.console
  clock : s'.machine.clock = s.machine.clock

/-- A relabelling that keeps the lines, and that keeps identities apart. -/
structure Relabelling.Faithful (l : Relabelling) : Prop where
  line : ∀ line, l.line line = line
  injective : Function.Injective l.id

namespace Relabelling.Faithful
variable {l : Relabelling} (h : l.Faithful)
include h

theorem error_relabel (e : StaticError) : e.relabel l = e := by
  cases e <;> simp only [StaticError.relabel, h.line]

theorem ending_reline (e : Ending) : e.reline l.line = e := by
  cases e <;> simp only [Ending.reline, h.line]

theorem resolve_errors (program : List Stmt) :
    (resolve (relabelBody l program)).errors = (resolve program).errors := by
  have herrors : (resolve program).errors.map (StaticError.relabel l) = (resolve program).errors :=
    (List.map_congr_left fun e _ => h.error_relabel e).trans (List.map_id _)
  rw [(resolve_relabel l program).errors, herrors]
  exact List.append_nil _

theorem noted_relabel (notes : List Note) (id : NodeId) :
    noted? (notes.map (Note.relabel l)) (l.id id) = noted? notes id := by
  unfold noted?
  induction notes with
  | nil => rfl
  | cons n rest ih =>
    have hsame : (l.id n.id == l.id id) = (n.id == id) := by
      rw [Bool.eq_iff_iff, beq_iff_eq, beq_iff_eq, h.injective.eq_iff]
    rw [List.map_cons, List.find?_cons, List.find?_cons]
    change Option.map Note.depth (match l.id n.id == l.id id with | true => _ | false => _) = _
    rw [hsame]
    cases n.id == id with
    | true => rfl
    | false => exact ih

theorem resolve_noted (program : List Stmt) (id : NodeId) :
    noted? (resolve (relabelBody l program)).notes (l.id id) = noted? (resolve program).notes id := by
  rw [(resolve_relabel l program).notes]
  change noted? (_ ++ []) _ = _
  rw [List.append_nil, h.noted_relabel]

end Relabelling.Faithful

section
variable {l : Relabelling} {s s' : Session} {next next' : NodeId}

theorem Mirrors.noteAll (hl : l.Faithful) (h : Mirrors l s s') (program : List Stmt) (next' : NodeId)
    (hle : s.nextId ≤ next) :
    Mirrors l ⟨s.machine.noteAll (resolve program).notes, next⟩
      ⟨s'.machine.noteAll (resolve (relabelBody l program)).notes, next'⟩ := by
  have hdepths (id : NodeId) :
      (s'.machine.noteAll (resolve (relabelBody l program)).notes).depths[l.id id]? =
        (s.machine.noteAll (resolve program).notes).depths[id]? := by
    rw [noteAll_depths, noteAll_depths, hl.resolve_noted, h.depths]
  have heq := noteAll_eq s.machine (resolve program).notes
  have heq' := noteAll_eq s'.machine (resolve (relabelBody l program)).notes
  rw [heq, heq'] at hdepths ⊢
  exact ⟨Store.Older.mono h.older hle, h.store, h.current, h.globals, hdepths, h.console, h.clock⟩

/-- Mirrored machines are twins. -/
theorem Mirrors.twins {m m' : Machine} (h : Mirrors l ⟨m, next⟩ ⟨m', next'⟩) :
    Twins ⟨l, next, m.depths, m'.depths, "", fun id _ => h.depths id⟩ m m' := by
  constructor
  case store => exact h.store
  case older => exact h.older
  case current => exact h.current
  case globals => exact h.globals
  case console => exact h.console.trans (by simp [Console.behind])
  case clock => exact h.clock
  all_goals rfl

theorem Mirrors.of_twins {m m' : Machine} {depths depths' : Depths} {agree}
    (h : Twins ⟨l, next, depths, depths', "", agree⟩ m m') (hd : ∀ id, depths'[l.id id]? = depths[id]?) :
    Mirrors l ⟨m.takeOutput.2, next⟩ ⟨m'.takeOutput.2, next'⟩ ∧ m'.takeOutput.1 = m.takeOutput.1 := by
  have hconsole : m'.console = m.console := h.console.trans (by simp [Console.behind])
  refine ⟨⟨h.older, h.store, h.current, h.globals, ?_, ?_, h.clock⟩, congrArg Console.written hconsole⟩
  · change ∀ id, m'.depths[l.id id]? = m.depths[id]?
    rw [h.depths, h.depths']
    exact hd
  · exact congrArg (fun c : Console => { c with written := "" }) hconsole

/-- If both sessions read the same program with other identities, their runs cannot be told apart. -/
theorem Mirrors.runWith (hl : l.Faithful) (h : Mirrors l s s') {source : String}
    (hread : (checkProgram source s'.nextId).1 = (checkProgram source s.nextId).1.map (relabelBody l))
    (fuel : Nat) : (s'.runWith fuel source).1 = (s.runWith fuel source).1 ∧
      Mirrors l (s.runWith fuel source).2 (s'.runWith fuel source).2 := by
  rcases hc : checkProgram source s.nextId with ⟨errors | program, next⟩
  · rw [hc] at hread
    obtain ⟨next', hc'⟩ : ∃ next', checkProgram source s'.nextId = (.error errors, next') :=
      ⟨_, Prod.ext hread rfl⟩
    rw [runWith_unread hc, runWith_unread hc']
    have hle := le_checkProgram source s.nextId
    rw [hc] at hle
    exact ⟨rfl, { h with older := h.older.mono hle }⟩
  · rw [hc] at hread
    obtain ⟨next', hc'⟩ : ∃ next', checkProgram source s'.nextId = (.ok (relabelBody l program), next') :=
      ⟨_, Prod.ext hread rfl⟩
    have hnoted := h.noteAll hl program next' (wellRead_of_checkProgram hc).numbered.le
    by_cases he : (resolve program).errors = []
    · have haccepted : Accepted s.nextId source program next := ⟨hc, he⟩
      have haccepted' : Accepted s'.nextId source (relabelBody l program) _ :=
        ⟨hc', (hl.resolve_errors program).trans he⟩
      rw [haccepted.runWith, haccepted'.runWith]
      have hends := alike_runProgram fuel program haccepted.older _ _ (Mirrors.twins hnoted)
      obtain ⟨hmirrors, houtput⟩ := Mirrors.of_twins hends.twins hnoted.depths
      refine ⟨?_, hmirrors⟩
      exact congrArg₂ Report.mk (hends.ending.trans (hl.ending_reline _)) houtput
    · have he' : (resolve (relabelBody l program)).errors ≠ [] := by
        rw [hl.resolve_errors]
        exact he
      rw [runWith_unsound hc he, runWith_unsound hc' he', hl.resolve_errors]
      exact ⟨rfl, hnoted⟩

end

/-! ## A gap in the identities -/

/-- The identities from `first` on larger by `count`. -/
def Relabelling.gap (first count : Nat) : Relabelling :=
  ⟨fun line => line, fun id => if id < first then id else id + count⟩

section
variable {first count : Nat}

theorem gap_below {id : NodeId} (h : id < first) : (Relabelling.gap first count).id id = id := if_pos h

theorem gap_above {id : NodeId} (h : first ≤ id) : (Relabelling.gap first count).id id = id + count :=
  if_neg (Nat.not_lt.2 h)

theorem gap_faithful : (Relabelling.gap first count).Faithful where
  line _ := rfl
  injective (i j : Nat) (h : _ = _) := by
    change (if i < first then i else i + count : Nat) = if j < first then j else j + count at h
    have hsame : (i : Nat) = j := by
      split at h <;> split at h <;> omega
    exact hsame

/-- A program that is older than the gap stays as it is. -/
theorem relabelBody_gap_below {program : List Stmt} (h : ∀ id ∈ bodyIds program, id < first) :
    relabelBody (.gap first count) program = program := by
  have hagree : (Relabelling.gap first count).Agree .same (bodyIds program) :=
    ⟨fun _ => rfl, fun id hid => gap_below (h id hid)⟩
  rw [relabelBody_congr hagree, relabelBody_same]

/-- In a program behind the gap all identities are shifted. -/
theorem relabelBody_gap_above {program : List Stmt} (h : ∀ id ∈ bodyIds program, first ≤ id) :
    relabelBody (.shift count) program = relabelBody (.gap first count) program :=
  relabelBody_congr ⟨fun _ => rfl, fun id hid => (gap_above (h id hid)).symm⟩

end

/-- A gap behind all identities that were given out changes nothing in a session. -/
def Session.Settled (session : Session) : Prop :=
  ∀ first count, session.nextId ≤ first → Mirrors (.gap first count) session session

/-- The functions of the language have no code. -/
theorem start_relabel (l : Relabelling) (console : Console) (clock : Clock) :
    (Machine.start console clock).store.relabel l = (Machine.start console clock).store := by
  let made := Store.newScope {} [] none
  have hstore : (Machine.start console clock).store = made.2.defineBuiltins made.1 := rfl
  have hmade : made.2.relabel l = made.2 := by
    have hscope := Store.newScope_relabel l {} [] none
    rw [Store.empty_relabel] at hscope
    exact (congrArg Prod.snd hscope).symm
  rw [hstore, ← Store.defineBuiltins_relabel, hmade]

theorem Session.settled_start (console : Console) (clock : Clock) : (Session.start console clock).Settled := by
  intro first count _
  constructor
  case older => exact Session.older_runs console clock []
  case store => exact (start_relabel (.gap first count) console clock).symm
  case depths => exact fun id => Std.TreeMap.getElem?_emptyc.trans Std.TreeMap.getElem?_emptyc.symm
  all_goals rfl

theorem Session.Settled.runWith {session : Session} (h : session.Settled) (fuel : Nat) (source : String) :
    (session.runWith fuel source).2.Settled := by
  -- The run is its own mirror image: it reads a program without an identity behind the gap.
  intro first count hle
  rw [runWith_nextId] at hle
  have hold : session.nextId ≤ first := Nat.le_trans (le_checkProgram source session.nextId) hle
  have hread : (checkProgram source session.nextId).1 =
      (checkProgram source session.nextId).1.map (relabelBody (.gap first count)) := by
    rcases hc : checkProgram source session.nextId with ⟨errors | program, next⟩
    · rfl
    · rw [hc] at hle
      have hbelow : ∀ id ∈ bodyIds program, id < first := fun id hid =>
        Nat.lt_of_lt_of_le ((wellRead_of_checkProgram hc).numbered.bounds hid).2 hle
      exact congrArg Except.ok (relabelBody_gap_below hbelow).symm
  exact ((h first count hold).runWith gap_faithful hread fuel).2

theorem Session.settled_runs (console : Console) (clock : Clock) (history : List (Nat × String)) :
    ((Session.start console clock).runs history).Settled := by
  have hstart := Session.settled_start console clock
  generalize Session.start console clock = session at hstart
  unfold Session.runs
  induction history generalizing session with
  | nil => exact hstart
  | cons run rest ih => exact ih _ (hstart.runWith run.1 run.2)

/-! ## Sessions with a rejected program -/

/-- The reports of programs that are run one after the other, each with an amount of fuel of its own. -/
def Session.reports (session : Session) : List (Nat × String) → List Report
  | [] => []
  | (fuel, source) :: rest =>
    let (report, session) := session.runWith fuel source
    report :: session.reports rest

/-- With ample fuel these are the reports of a session. -/
theorem Session.runAll_eq (session : Session) (sources : List String) :
    let history := sources.map fun source => (ampleFuel, source)
    session.runAll sources = (session.reports history, session.runs history) := by
  induction sources generalizing session with
  | nil => rfl
  | cons source rest ih =>
    have hrun : session.run source = session.runWith ampleFuel source := rfl
    dsimp only [List.map_cons, reports, runs, List.foldl_cons]
    rw [Session.runAll, hrun]
    dsimp only
    rw [ih]
    rfl

theorem Session.reports_append (session : Session) (before after : List (Nat × String)) :
    session.reports (before ++ after) = session.reports before ++ (session.runs before).reports after := by
  induction before generalizing session with
  | nil => rfl
  | cons run rest ih => exact congrArg (List.cons _) (ih _)

theorem Session.reports_length (session : Session) (history : List (Nat × String)) :
    (session.reports history).length = history.length := by
  induction history generalizing session with
  | nil => rfl
  | cons run rest ih => exact congrArg Nat.succ (ih _)

/-- What a rejected program leaves behind: used identities, and depths for them. -/
structure Leaves (s s' : Session) (notes : List Note) (count : NodeId) : Prop where
  machine : s'.machine = s.machine.noteAll notes
  nextId : s'.nextId = s.nextId + count
  notes : ∀ n ∈ notes, s.nextId ≤ n.id ∧ n.id < s.nextId + count

theorem runWith_rejected {session : Session} {fuel : Nat} {source : String} {errors : List StaticError}
    (h : (session.runWith fuel source).1.ending = .rejected errors) :
    (errors ≠ [] ∧ ∃ phase, ∀ e ∈ errors, e.phase = phase) ∧ (session.runWith fuel source).1.output = "" ∧
      ∃ notes count, Leaves session (session.runWith fuel source).2 notes count := by
  have hle := le_checkProgram source session.nextId
  rcases hc : checkProgram source session.nextId with ⟨found | program, next⟩
  · rw [hc] at hle
    obtain ⟨count, rfl⟩ := Nat.exists_eq_add_of_le hle
    rw [runWith_unread hc] at h ⊢
    cases h
    exact ⟨checkProgram_phase hc, rfl, [], count, rfl, rfl, by simp⟩
  · by_cases he : (resolve program).errors = []
    · rw [Accepted.runWith ⟨hc, he⟩] at h
      dsimp only at h
      cases hrun : runProgram fuel program (session.machine.noteAll (resolve program).notes) <;>
        rw [hrun] at h <;> cases h
    · rw [hc] at hle
      obtain ⟨count, rfl⟩ := Nat.exists_eq_add_of_le hle
      rw [runWith_unsound hc he] at h ⊢
      cases h
      refine ⟨⟨by simpa using he, .scope, ?_⟩, rfl, (resolve program).notes, count, rfl, rfl, ?_⟩
      · exact fun e hm => resolve_phase program e (List.mem_reverse.1 hm)
      · obtain ⟨new, hnew, hids, -⟩ := stmts_grows {} program {}
        intro n hn
        have hmem : n ∈ new := by
          have hnotes : (resolve program).notes = new ++ [] := hnew
          rwa [hnotes, List.append_nil] at hn
        exact (wellRead_of_checkProgram hc).numbered.bounds (hids n hmem)

/-- What a rejected program leaves behind lies in the gap. -/
theorem Leaves.mirrors {s s' : Session} {notes : List Note} {count : NodeId} (h : Leaves s s' notes count)
    (hs : s.Settled) : Mirrors (.gap s.nextId count) s s' := by
  obtain ⟨machine, next⟩ := s'
  obtain ⟨hmachine, -, hnotes⟩ := h
  have hsame := hs s.nextId count (Nat.le_refl _)
  have hdepths (id : NodeId) :
      (s.machine.noteAll notes).depths[(Relabelling.gap s.nextId count).id id]? = s.machine.depths[id]? := by
    have hapart : noted? notes ((Relabelling.gap s.nextId count).id id) = none := by
      apply noted?_of_apart
      intro n hm he
      obtain ⟨hfirst, hlast⟩ := hnotes n hm
      -- The notes stand for identities in the gap, which no identity is relabelled to.
      rcases Nat.lt_or_ge id s.nextId with hid | hid
      · rw [gap_below hid] at he
        exact absurd hfirst (Nat.not_le.2 (he ▸ hid))
      · rw [gap_above hid] at he
        exact absurd hlast (Nat.not_lt.2 (he ▸ Nat.add_le_add_right hid count))
    rw [noteAll_depths, hapart, Option.none_or]
    exact hsame.depths id
  subst hmachine
  rw [noteAll_eq] at hdepths ⊢
  exact { hsame with depths := hdepths }

/-- Behind a gap, programs report the same as without it. -/
theorem Mirrors.reports {first count : Nat} {s s' : Session} (h : Mirrors (.gap first count) s s')
    (hfirst : first ≤ s.nextId) (hnext : s'.nextId = s.nextId + count) (history : List (Nat × String)) :
    s'.reports history = s.reports history := by
  induction history generalizing s s' with
  | nil => rfl
  | cons run rest ih =>
    obtain ⟨fuel, source⟩ := run
    have hshift := checkProgram_shift source s.nextId count
    rw [← hnext] at hshift
    have hread : (checkProgram source s'.nextId).1 =
        (checkProgram source s.nextId).1.map (relabelBody (.gap first count)) := by
      rw [hshift]
      rcases hc : checkProgram source s.nextId with ⟨errors | program, next⟩
      · rfl
      · have habove : ∀ id ∈ bodyIds program, first ≤ id := fun id hid =>
          Nat.le_trans hfirst ((wellRead_of_checkProgram hc).numbered.bounds hid).1
        exact congrArg Except.ok (relabelBody_gap_above habove)
    obtain ⟨hreport, hmirrors⟩ := h.runWith gap_faithful hread fuel
    have hfirst' : first ≤ (s.runWith fuel source).2.nextId := by
      rw [runWith_nextId]
      exact Nat.le_trans hfirst (le_checkProgram source s.nextId)
    have hnext' : (s'.runWith fuel source).2.nextId = (s.runWith fuel source).2.nextId + count := by
      rw [runWith_nextId, runWith_nextId, hshift]
    exact congrArg₂ List.cons hreport (ih hmirrors hfirst' hnext')

/-- A program with static errors reports them, all of one stage. It prints nothing and changes nothing in the
machine but depths. Without it the session has the same reports of all other programs. -/
theorem rejected_program_is_invisible (console : Console) (clock : Clock)
    (before after : List (Nat × String)) (fuel : Nat) (source : String) (errors : List StaticError) :
    let start := Session.start console clock
    let session := start.runs before
    let ran := session.runWith fuel source
    ran.1.ending = .rejected errors →
      (ran.1.ending.diagnostics ≠ [] ∧
        ∃ phase, ∀ diagnostic ∈ ran.1.ending.diagnostics, diagnostic.phase = phase) ∧
      ran.1.output = "" ∧
      ran.2.machine = { session.machine with depths := ran.2.machine.depths } ∧
      start.reports (before ++ after) =
        (start.reports (before ++ (fuel, source) :: after)).eraseIdx before.length := by
  intro start session ran hrejected
  obtain ⟨⟨hsome, phase, hphase⟩, houtput, notes, count, hleaves⟩ := runWith_rejected hrejected
  have hmirrors : Mirrors (.gap session.nextId count) session ran.2 :=
    hleaves.mirrors (Session.settled_runs console clock before)
  have hafter : ran.2.reports after = session.reports after :=
    hmirrors.reports (Nat.le_refl _) hleaves.nextId after
  refine ⟨⟨?_, phase, ?_⟩, houtput, ?_, ?_⟩
  · rw [hrejected]
    simpa [Ending.diagnostics] using hsome
  · rw [hrejected]
    intro diagnostic hd
    obtain ⟨e, he, rfl⟩ := List.mem_map.1 hd
    exact hphase e he
  · rw [hleaves.machine, noteAll_eq]
  · have hlength : (start.reports before).length = before.length := start.reports_length before
    rw [Session.reports_append, Session.reports_append, ← hlength, List.eraseIdx_append_of_length_le
      (Nat.le_refl _), Nat.sub_self]
    exact congrArg (start.reports before ++ ·) hafter.symm

/-- A program that breaches a rule behind a block with a local name, between a program that makes a closure
and one that calls it. -/
theorem rejected_program_is_invisible_breach :
    let start := Session.start {} (fun _ => 0)
    let before := [(20, "fun make() \x7b var n; fun flip() \x7b n = !n; return n; \x7d return flip; \x7d" ++
      " var flip = make();")]
    let after := [(20, "print(flip()); print(flip());")]
    let breach := "\x7b var n; n; \x7d return flip;"
    start.reports (before ++ after) = [⟨.completed, ""⟩, ⟨.completed, "true\nfalse\n"⟩] ∧
      start.reports (before ++ after) =
        (start.reports (before ++ (20, breach) :: after)).eraseIdx before.length := by
  intro start before after breach
  have hreports : start.reports (before ++ after) = [⟨.completed, ""⟩, ⟨.completed, "true\nfalse\n"⟩] := by
    decide +kernel
  have hrejected : ((start.runs before).runWith 20 breach).1.ending =
      .rejected [.scope 1 "return" .returnOutsideFunction] := by decide +kernel
  have hinvisible := rejected_program_is_invisible {} (fun _ => 0) before after 20 breach
    [.scope 1 "return" .returnOutsideFunction] hrejected
  exact ⟨hreports, hinvisible.2.2.2⟩

end LoxLang
