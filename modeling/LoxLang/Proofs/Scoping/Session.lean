import LoxLang.Proofs.Scoping.Access
import LoxLang.Proofs.Scoping.Run

/-!
# Lexical addressing

The history of a session that runs any programs one after the other, with any amounts of fuel. At every use
of a name in it, the depth noted for the use leads to the scope that was opened for the place at which the
text declares the name, and the use goes there. That scope binds the name, but for an assignment in the initializer
of the very variable that it assigns.
-/

namespace LoxLang

/-- A session with its history and with the programs that it has run, the last one first. -/
structure Chronicle where
  session : Session
  log : History := []
  programs : List (List Stmt) := []

/-- The session after programs, each run with an amount of fuel of its own. -/
def Session.runs (session : Session) (runs : List (Nat × String)) : Session :=
  runs.foldl (fun session run => (session.runWith run.1 run.2).2) session

namespace Chronicle

/-- A program is run if it has no errors, as in a session, and its history is added. -/
def run (c : Chronicle) (fuel : Nat) (source : String) : Chronicle :=
  match checkProgram source c.session.nextId with
  | (.error _, nextId) => { c with session := { c.session with nextId } }
  | (.ok program, nextId) =>
    let resolution := resolve program
    let machine := c.session.machine.noteAll resolution.notes
    if !resolution.errors.isEmpty then { c with session := { machine, nextId } }
    else
      let (outcome, log) := ((traced fuel).runProgram program).onto c.log machine
      { session := { machine := outcome.machine.takeOutput.2, nextId }, log,
        programs := program :: c.programs }

def runs (c : Chronicle) (runs : List (Nat × String)) : Chronicle :=
  runs.foldl (fun c run => c.run run.1 run.2) c

/-- The chronicle of a whole session. -/
def of (console : Console) (clock : Clock) (runs : List (Nat × String)) : Chronicle :=
  Chronicle.runs { session := Session.start console clock } runs

/-- The history is that of the session. -/
theorem run_session (c : Chronicle) (fuel : Nat) (source : String) :
    (c.run fuel source).session = (c.session.runWith fuel source).2 := by
  unfold run Session.runWith
  rcases checkProgram source c.session.nextId with ⟨_ | program, nextId⟩
  · rfl
  · have hw := (watches_runProgram historyNotes fuel program).outcome
      (c.session.machine.noteAll (resolve program).notes)
    dsimp only
    split
    · rfl
    · rw [← hw]
      rfl

theorem runs_session (c : Chronicle) (runs : List (Nat × String)) :
    (c.runs runs).session = c.session.runs runs := by
  unfold Chronicle.runs Session.runs
  induction runs generalizing c with
  | nil => rfl
  | cons first rest ih => rw [List.foldl_cons, List.foldl_cons, ih, run_session]

end Chronicle

/-! ## The machine before the first program -/

/-- A store with one scope, which binds values without code. -/
structure Initial (s : Store) : Prop where
  single : s.scopes.size = 1
  enclosing : ∀ scope, s.enclosing? scope = none
  bindings : ∀ scope name value, s.binding? scope name = some value → value.CodeFree
  lists : s.lists = #[]
  instances : s.instances = #[]

theorem initial_empty : Initial (Store.newScope {} [] none).2 where
  single := rfl
  enclosing scope := by
    rw [Store.newScope_enclosing]
    split
    · rfl
    · rfl
  bindings scope name value h := by
    rw [Store.newScope_binding] at h
    split at h <;> cases h
  lists := rfl
  instances := rfl

theorem Initial.define {s : Store} (h : Initial s) (scope : ScopeId) (name : String) {value : Value}
    (hv : value.CodeFree) : Initial (s.define scope name value) where
  single := (Store.define_size ..).trans h.single
  enclosing other := (Store.define_enclosing ..).trans (h.enclosing other)
  bindings other found value' hb := by
    rcases Store.define_binding_cases hb with rfl | hb
    · exact hv
    · exact h.bindings _ _ _ hb
  lists := h.lists
  instances := h.instances

theorem initial_start (console : Console) (clock : Clock) : Initial (Machine.start console clock).store := by
  suffices ∀ (builtins : List Builtin) (s : Store), Initial s →
      Initial (builtins.foldl (fun s builtin => s.define 0 builtin.name (.builtin builtin)) s) from
    this Builtin.all _ initial_empty
  intro builtins
  induction builtins with
  | nil => exact fun _ h => h
  | cons builtin rest ih => exact fun s h => ih _ (h.define 0 builtin.name trivial)

theorem good_start (console : Console) (clock : Clock) :
    Good [] ⟨[], Machine.start console clock⟩ := by
  have h := initial_start console clock
  constructor
  · constructor
    · intro s around he
      rw [Moment.store, h.enclosing] at he
      cases he
    · exact h.enclosing _
    · change 0 < _
      rw [h.single]
      exact Nat.zero_lt_one
    · intro s site hm
      cases hm
    · intro s site site' hm
      cases hm
    · intro s method receiver hm
      cases hm
    · intro s method method' receiver receiver' hm
      cases hm
  · simp
  · exact fun s name value hb => (h.bindings s name value hb).good
  · intro list value hm
    unfold Store.items Moment.store at hm
    rw [h.lists] at hm
    cases Array.not_mem_empty value hm
  · intro object name value hm
    unfold Store.field? Moment.store at hm
    rw [h.instances] at hm
    cases hm
  · trivial

/-! ## Noting depths -/

theorem noteAll_machine (m : Machine) (notes : List Note) :
    ∃ depths, m.noteAll notes = { m with depths } := by
  unfold Machine.noteAll
  induction notes with
  | nil => exact ⟨m.depths, rfl⟩
  | cons note rest ih =>
    obtain ⟨depths, hd⟩ := ih
    exact ⟨depths.insert note.id note.depth, by rw [List.foldr_cons, hd]; rfl⟩

/-- Notes are made for references of the program only. -/
theorem noted_of_resolve {program : List Stmt} {id : NodeId} {d : Nat}
    (h : noted? (resolve program).notes id = some d) : id ∈ bodyIds program := by
  obtain ⟨new, hn, hnew, -⟩ := stmts_grows {} program {}
  have hnotes : (resolve program).notes = new := hn.trans (List.append_nil new)
  unfold noted? at h
  rw [hnotes] at h
  obtain ⟨note, hfind, -⟩ := Option.map_eq_some_iff.1 h
  have hid : note.id = id := by simpa using List.find?_some hfind
  exact hid ▸ hnew note (List.mem_of_find?_eq_some hfind)

/-- A good moment between two programs. All programs and all notes are older than the next identity. -/
structure Chronicle.Sane (c : Chronicle) : Prop where
  good : Good c.programs ⟨c.log, c.session.machine⟩
  outside : c.session.machine.current = c.session.machine.globals
  older : ∀ program ∈ c.programs, ∀ id ∈ bodyIds program, id < c.session.nextId
  unnoted : ∀ id, c.session.nextId ≤ id → c.session.machine.depths[id]? = none

section
variable {programs programs' : List (List Stmt)} {t : Moment}

theorem GoodMethod.mono (hs : programs ⊆ programs') {f : Closure} (h : GoodMethod programs t f) :
    GoodMethod programs' t f := by
  obtain ⟨program, hp, h⟩ := h
  exact ⟨program, hs hp, h⟩

theorem GoodValue.mono (hs : programs ⊆ programs') {value : Value} (h : GoodValue programs t value) :
    GoodValue programs' t value := by
  cases value with
  | function id f =>
    obtain ⟨program, hp, h⟩ := h
    exact ⟨program, hs hp, h⟩
  | classObject c => exact fun name f hf => (h name f hf).imp_left fun hm => hm.mono hs
  | instanceOf id c => exact fun name f hf => (h name f hf).imp_left fun hm => hm.mono hs
  | _ => trivial

theorem Sound.mono (hs : programs ⊆ programs') {log : History} (h : Sound programs log) :
    Sound programs' log := by
  induction log with
  | nil => trivial
  | cons event earlier ih =>
    cases event with
    | opened scope site => exact ih h
    | bound scope method receiver => exact ih h
    | used node m =>
      obtain ⟨⟨ho, program, hp, hj⟩, hearlier⟩ := h
      exact ⟨⟨ho, program, hs hp, hj⟩, ih hearlier⟩

/-- Depths that belong to no program that was run before change nothing for those programs. -/
theorem Good.noting (h : Good programs t) {depths : Depths} (hs : programs ⊆ programs')
    (hp : ∀ program ∈ programs', Prepared program { t.machine with depths }) :
    Good programs' ⟨t.log, { t.machine with depths }⟩ := by
  have he : ∀ {layers s}, Encloses t layers s →
      Encloses ⟨t.log, { t.machine with depths }⟩ layers s := by
    intro layers s he
    induction he with
    | globals => exact .globals
    | @scope layer outer s around hne hl hh hs hb _ ih =>
      have hh' : Holds ⟨t.log, { t.machine with depths }⟩ s layer.site := by
        cases hsite : layer.site <;> rw [hsite] at hh <;> exact hh
      exact .scope hne hl hh' hs hb ih
  have hm : ∀ f, GoodMethod programs t f → GoodMethod programs ⟨t.log, { t.machine with depths }⟩ f := by
    rintro f ⟨program, hp, c, outer, hstands, hl, henc⟩
    exact ⟨program, hp, c, outer, hstands, hl, he henc⟩
  have hv : ∀ value, GoodValue programs t value →
      GoodValue programs' ⟨t.log, { t.machine with depths }⟩ value := by
    intro value hv
    refine GoodValue.mono hs ?_
    cases value with
    | function id f =>
      obtain ⟨program, hp, c, hstands, henc, hi⟩ := hv
      exact ⟨program, hp, c, hstands, he henc, hi⟩
    | classObject c => exact fun name f hf => (hv name f hf).imp_left (hm f)
    | instanceOf id c => exact fun name f hf => (hv name f hf).imp_left (hm f)
    | _ => trivial
  exact {
    inward := h.inward
    outermost := h.outermost
    present := h.present
    recorded := h.recorded
    unique := h.unique
    bound := h.bound
    once := h.once
    prepared := hp
    bindings := fun s name value hb => hv value (h.bindings s name value hb)
    items := fun list value hi => hv value (h.items list value hi)
    fields := fun object name value hf => hv value (h.fields object name value hf)
    sound := h.sound.mono hs }

end

theorem Good.printed {programs : List (List Stmt)} {t : Moment} (h : Good programs t) :
    Good programs ⟨t.log, t.machine.takeOutput.2⟩ :=
  (@Good.aside programs t h t.machine.takeOutput.2 rfl rfl rfl rfl h.items h.fields).1

theorem Chronicle.sane_start (console : Console) (clock : Clock) :
    Chronicle.Sane { session := Session.start console clock } where
  good := good_start console clock
  outside := rfl
  older := by simp
  unnoted _ _ := Std.TreeMap.getElem?_emptyc

theorem le_checkProgram (source : String) (first : NodeId) : first ≤ (checkProgram source first).2 := by
  unfold checkProgram
  split
  · exact le_parse_nextId _ _
  · exact Nat.le_refl _

theorem wellRead_of_checkProgram {source : String} {first next : NodeId} {program : List Stmt}
    (h : checkProgram source first = (.ok program, next)) : WellRead first program next := by
  unfold checkProgram at h
  split at h
  · have hr : (parse (tokens source) first).result = .ok program := congrArg Prod.fst h
    have hn : (parse (tokens source) first).nextId = next := congrArg Prod.snd h
    exact hn ▸ wellRead_of_parse hr
  · cases h

section
variable {c : Chronicle} {program : List Stmt} {next : NodeId} {depths : Depths}

/-- What noting the depths of one more program means for those that were run before and for itself. -/
structure Noted (c : Chronicle) (program : List Stmt) (next : NodeId) (depths : Depths) : Prop where
  before : ∀ program ∈ c.programs, Prepared program { c.session.machine with depths }
  fresh : ∀ id ∈ bodyIds program, depths[id]? = noted? (resolve program).notes id
  unnoted : ∀ id, next ≤ id → depths[id]? = none
  older : ∀ earlier ∈ program :: c.programs, ∀ id ∈ bodyIds earlier, id < next

theorem Chronicle.Sane.noted (h : c.Sane) (hr : WellRead c.session.nextId program next)
    (hd : c.session.machine.noteAll (resolve program).notes = { c.session.machine with depths }) :
    Noted c program next depths := by
  have hdepths : ∀ id, depths[id]? =
      (noted? (resolve program).notes id).or c.session.machine.depths[id]? := by
    intro id
    have hnote := noteAll_depths c.session.machine (resolve program).notes id
    rwa [hd] at hnote
  have hnone : ∀ id, id ∉ bodyIds program → noted? (resolve program).notes id = none := by
    intro id hid
    cases hn : noted? (resolve program).notes id with
    | none => rfl
    | some d => exact absurd (noted_of_resolve hn) hid
  constructor
  · intro earlier hp
    have hprepared := h.good.prepared earlier hp
    refine { hprepared with depths := fun id hid => ?_ }
    have hlt : id < c.session.nextId := h.older earlier hp id hid
    have hnot : id ∉ bodyIds program := fun hin =>
      Nat.lt_irrefl _ (Nat.lt_of_lt_of_le hlt (hr.numbered.bounds hin).1)
    change depths[id]? = _
    rw [hdepths, hnone id hnot, Option.none_or]
    exact hprepared.depths id hid
  · intro id hid
    rw [hdepths, h.unnoted id (hr.numbered.bounds hid).1, Option.or_none]
  · intro id hle
    have hnot : id ∉ bodyIds program := fun hin =>
      Nat.lt_irrefl _ (Nat.lt_of_lt_of_le (hr.numbered.bounds hin).2 hle)
    rw [hdepths, hnone id hnot, Option.none_or]
    exact h.unnoted id (Nat.le_trans hr.numbered.le hle)
  · intro earlier hp id hid
    rcases List.mem_cons.1 hp with rfl | hp
    · exact (hr.numbered.bounds hid).2
    · exact Nat.lt_of_lt_of_le (h.older earlier hp id hid) hr.numbered.le

/-- A program without errors begins at a good moment, outside of all scopes. -/
theorem Chronicle.Sane.begins (h : c.Sane) (hr : WellRead c.session.nextId program next)
    (hd : c.session.machine.noteAll (resolve program).notes = { c.session.machine with depths })
    (hs : (resolve program).errors = []) :
    Good (program :: c.programs) ⟨c.log, { c.session.machine with depths }⟩ ∧
      Current {} ⟨c.log, { c.session.machine with depths }⟩ := by
  have hn := h.noted hr hd
  have hprepared : ∀ earlier ∈ program :: c.programs,
      Prepared earlier { c.session.machine with depths } := by
    intro earlier hp
    rcases List.mem_cons.1 hp with rfl | hp
    · exact ⟨⟨⟨_, _, hr⟩, hs⟩, hn.fresh⟩
    · exact hn.before earlier hp
  refine ⟨h.good.noting (List.subset_cons_self program c.programs) hprepared, ?_⟩
  constructor
  · rw [show (Moment.mk c.log { c.session.machine with depths }).machine.current =
      c.session.machine.globals from h.outside]
    exact .globals
  · intro layer hl
    cases hl

/-- How the run of a program without errors ends. -/
theorem Chronicle.Sane.ends (h : c.Sane) (fuel : Nat) (hr : WellRead c.session.nextId program next)
    (hd : c.session.machine.noteAll (resolve program).notes = { c.session.machine with depths })
    (hs : (resolve program).errors = []) :
    Ends (program :: c.programs) (some c.session.machine.current) ((traced fuel).runProgram program)
      ⟨c.log, { c.session.machine with depths }⟩ fun _ _ => True := by
  obtain ⟨hgood, hcurrent⟩ := h.begins hr hd hs
  exact keeps_runProgram fuel List.mem_cons_self .program rfl hgood hcurrent

/-- Every program keeps a chronicle sane, whether it is run or not, and however its run ends. -/
theorem Chronicle.Sane.run (h : c.Sane) (fuel : Nat) (source : String) : (c.run fuel source).Sane := by
  unfold Chronicle.run
  rcases hcheck : checkProgram source c.session.nextId with ⟨_ | program, next⟩
  · have hle : c.session.nextId ≤ next := by
      have hle := le_checkProgram source c.session.nextId
      rwa [hcheck] at hle
    exact ⟨h.good, h.outside, fun program hp id hid => Nat.lt_of_lt_of_le (h.older program hp id hid) hle,
      fun id hid => h.unnoted id (Nat.le_trans hle hid)⟩
  · have hr := wellRead_of_checkProgram hcheck
    obtain ⟨depths, hd⟩ := noteAll_machine c.session.machine (resolve program).notes
    have hn := h.noted hr hd
    dsimp only
    rw [hd]
    split
    · have hgood := h.good.noting (List.Subset.refl _) hn.before
      exact ⟨hgood, h.outside, fun earlier hp => hn.older earlier (List.mem_cons_of_mem _ hp), hn.unnoted⟩
    · rename_i herrors
      have hsound : (resolve program).errors = [] := by
        simpa using herrors
      have hends := h.ends fuel hr hd hsound
      refine ⟨?_, ?_, hn.older, ?_⟩
      · exact hends.good.printed
      · exact hends.later.current.trans (h.outside.trans hends.later.globals.symm)
      · intro id hid
        have hdepths : (((traced fuel).runProgram program).onto c.log
            { c.session.machine with depths }).1.machine.depths = depths := hends.later.depths
        change (((traced fuel).runProgram program).onto c.log
            { c.session.machine with depths }).1.machine.depths[id]? = none
        rw [hdepths]
        exact hn.unnoted id hid

theorem Chronicle.Sane.runs (h : c.Sane) (runs : List (Nat × String)) : (c.runs runs).Sane := by
  unfold Chronicle.runs
  induction runs generalizing c with
  | nil => exact h
  | cons first rest ih => exact ih (h.run first.1 first.2)

end

theorem Chronicle.sane_of (console : Console) (clock : Clock) (runs : List (Nat × String)) :
    (Chronicle.of console clock runs).Sane := (Chronicle.sane_start console clock).runs runs

theorem Sound.justified {programs : List (List Stmt)} {log earlier : History} {later : History}
    {node : Expr} {m : Machine} (h : Sound programs log) (he : log = later ++ .used node m :: earlier) :
    Justified programs ⟨earlier, m⟩ node := by
  subst he
  induction later with
  | nil => exact h.1
  | cons event rest ih =>
    cases event with
    | opened scope site => exact ih h
    | bound scope method receiver => exact ih h
    | used other m' => exact ih h.2

/-! ## What depths lead to -/

/-- The depth leads from the current scope to the one that was opened for the innermost layer that declares
the name. There are enough scopes on the way out, and the globals are not reached. -/
structure LeadsTo (c : Context) (t : Moment) (name : String) (d : Nat) (layer : Layer) : Prop where
  there : c.layers[d]? = some layer
  declares : layer.frame.has name = true
  innermost : ∀ e inner, e < d → c.layers[e]? = some inner → inner.frame.has name = false
  hops : d + 1 < (t.store.chain t.machine.current).length
  scope : (t.store.chain t.machine.current)[d]? = some (t.store.ancestor d t.machine.current)
  inside : t.store.ancestor d t.machine.current ≠ t.machine.globals
  opened : .opened (t.store.ancestor d t.machine.current) layer.site ∈ t.log

theorem Aligned.leadsTo {c : Context} {t : Moment} {scopes : List ScopeId} (h : Aligned c t scopes)
    {name : String} {d : Nat} (hd : depthIn? name c.frames = some d) :
    ∃ layer, LeadsTo c t name d layer := by
  obtain ⟨layer, hlayer, hhas, hinner⟩ := layer_of_depth hd
  obtain ⟨hscope, hne, hopened⟩ := h.opened d layer hlayer
  have hlt : d < scopes.length := (List.getElem?_eq_some_iff.1 hscope).1
  refine ⟨layer, hlayer, hhas, hinner, ?_, ?_, hne, (hopened layer.site).2 rfl⟩
  · rw [h.chain, List.length_append]
    exact Nat.add_lt_add_right hlt 1
  · rw [h.chain, List.getElem?_append_left hlt]
    exact hscope

/-- Resolution comes to the use with as many frames as the context has layers and finds the name where the
context has it; what it notes there is part of the notes of the program. -/
def FoundBy (program : List Stmt) (c : Context) (node : Expr) : Prop :=
  ∃ r : Resolution, r.frames.length = c.layers.length ∧
    (∀ id name, node.use? = some (id, name) → depthIn? name r.frames = depthIn? name c.frames) ∧
    (Resolution.expr c.setting node r).notes <:+ (resolve program).notes

theorem Uses.foundBy {program : List Stmt} {c : Context} {node : Expr} (h : Uses program c node)
    (hc : Checked program) : FoundBy program c node := by
  obtain ⟨c', r, later, hr, hsetting, hlength, hd⟩ := h.reach hc
  refine ⟨r, ?_, ?_, ?_⟩
  · rw [hr.frames, ← hlength]
    exact List.length_map _
  · intro id name hu
    rw [hr.frames, (hd id name hu).1]
  · have hn := hr.notes
    rw [hsetting] at hn
    exact ⟨later, hn.symm⟩

/-- At every use of a name in a session, also in closures that earlier programs made, the scopes on the way
out are those that the text puts around the use, and a depth that was noted for the use leads to the scope
that was opened for the innermost of them that declares the name. That scope is where the use reads or changes
the name, and no other scope can hold it, whatever nearer scopes have come to bind. -/
theorem noted_depth_leads_to_declaring_scope (console : Console) (clock : Clock)
    (runs : List (Nat × String)) :
    (Chronicle.of console clock runs).session = (Session.start console clock).runs runs ∧
    ∀ later node m earlier, (Chronicle.of console clock runs).log = later ++ .used node m :: earlier →
      ∃ program ∈ (Chronicle.of console clock runs).programs, ∃ c scopes,
        Uses program c node ∧ FoundBy program c node ∧ Aligned c ⟨earlier, m⟩ scopes ∧
        ∀ id name, node.use? = some (id, name) →
          m.depths[id]? = noted? (resolve program).notes id ∧
          ∀ d, m.depths[id]? = some d →
            (∃ layer, LeadsTo c ⟨earlier, m⟩ name d layer) ∧ AccessesAt name d m node ∧
            ∀ holder, m.holder? (some d) name = some holder → holder = m.store.ancestor d m.current := by
  refine ⟨Chronicle.runs_session _ runs, ?_⟩
  intro later node m earlier hlog
  have hsound := (Chronicle.sane_of console clock runs).good.sound
  obtain ⟨ho, program, hp, hprepared, c, hu, hc⟩ := hsound.justified hlog
  obtain ⟨scopes, haligned⟩ := hc.aligned ho
  refine ⟨program, hp, c, scopes, hu, hu.foundBy hprepared.toChecked, haligned, ?_⟩
  intro id name huse
  have hdepth := hprepared.depths id (hu.use_mem hprepared.toChecked huse)
  refine ⟨hdepth, fun d hd => ⟨haligned.leadsTo ?_, accessesAt huse ?_ hd, fun _ => holder_eq_ancestor⟩⟩
  · rw [← hu.noted hprepared.toChecked huse, ← hdepth]
    exact hd
  · rintro target rfl
    cases huse
    exact hu.receiver_name hprepared.named

/-- A closure that another program calls reads the variable that it was made with, also when a nearer scope has
bound the name since. -/
theorem noted_depth_leads_to_declaring_scope_closure :
    ∃ runs later target m earlier,
      (Chronicle.of {} (fun _ => 0) runs).log = later ++ .used (.reference target) m :: earlier ∧
      (∃ c layer, LeadsTo c ⟨earlier, m⟩ "a" 2 layer) ∧
      (m.store.binding? (m.store.ancestor 1 m.current) "a").isSome ∧
      evaluate 1 (.reference target) m = readIn (m.store.ancestor 2 m.current) ⟨"a", target.name.line⟩ m := by
  let runs := [
    (20, "var f; \x7b var a = 1; \x7b fun g() \x7b return a; \x7d var a = 2; f = g; \x7d \x7d"),
    (20, "f();")]
  have hany : (Chronicle.of {} (fun _ => 0) runs).log.any (fun event =>
      match event with
      | .used (.reference target) m => target.name.text == "a" && m.depths[target.id]? == some 2 &&
        (m.store.binding? (m.store.ancestor 1 m.current) "a").isSome
      | _ => false) = true := by decide +kernel
  obtain ⟨event, hmem, hevent⟩ := List.any_eq_true.1 hany
  obtain ⟨later, earlier, hlog⟩ := List.append_of_mem hmem
  split at hevent
  · rename_i target m
    obtain ⟨hevent, hnearer⟩ := Bool.and_eq_true_iff.1 hevent
    rw [Bool.and_eq_true, beq_iff_eq, beq_iff_eq] at hevent
    obtain ⟨_, _, c, _, _, _, _, hd⟩ :=
      (noted_depth_leads_to_declaring_scope {} (fun _ => 0) runs).2 later _ m earlier hlog
    obtain ⟨⟨layer, hlayer⟩, ⟨hreads, heval⟩, -⟩ := (hd _ _ rfl).2 2 hevent.2
    rw [hevent.1] at hlayer hreads
    exact ⟨runs, later, target, m, earlier, hlog, ⟨c, layer, hlayer⟩, hnearer, (heval 0).trans hreads⟩
  · cases hevent

/-! ## When a name is bound -/

theorem readName_fails_iff (depth : Option Nat) (name : Name) (m : Machine) :
    readName depth name m = .failed ⟨.undefinedVariable name.text, name.line⟩ m ↔
      m.holder? depth name.text = none := by
  have hread : readName depth name m =
      Effect.ofOption name.line (.undefinedVariable name.text)
        ((m.holder? depth name.text).bind fun holder => m.store.binding? holder name.text) m := rfl
  rw [hread]
  cases hh : m.holder? depth name.text with
  | none => exact ⟨fun _ => rfl, fun _ => rfl⟩
  | some holder =>
    obtain ⟨value, hv⟩ := Option.isSome_iff_exists.1 (holder_bound hh)
    rw [Option.bind_some, hv]
    constructor
    · intro h
      cases h
    · intro h
      cases h

theorem writeName_fails_iff (depth : Option Nat) (name : Name) (value : Value) (m : Machine) :
    writeName depth name value m = .failed ⟨.undefinedVariable name.text, name.line⟩ m ↔
      m.holder? depth name.text = none := by
  have hwrite : writeName depth name value m =
      Effect.andThen (Effect.ofOption name.line (.undefinedVariable name.text)
        (m.holder? depth name.text))
        (fun holder => Effect.modifyStore fun s => s.define holder name.text value) m := rfl
  rw [hwrite]
  cases hh : m.holder? depth name.text with
  | none => exact ⟨fun _ => rfl, fun _ => rfl⟩
  | some holder =>
    constructor
    · intro h
      cases h
    · intro h
      cases h

theorem holder_eq_none_iff {m : Machine} {d : Nat} {name : String} :
    m.holder? (some d) name = none ↔ m.store.binding? (m.store.ancestor d m.current) name = none := by
  unfold Machine.holder? Store.binderAt?
  dsimp only
  cases hb : m.store.binding? (m.store.ancestor d m.current) name <;> simp

theorem Current.unbound_iff {t : Moment} {node : Expr} {id : NodeId} {name : String} {d : Nat}
    {program : List Stmt} {c : Context} (hc : Current c t) (ho : Orderly t)
    (hchecked : Checked program) (hu : Uses program c node) (huse : node.use? = some (id, name))
    (hd : depthIn? name c.frames = some d) :
    t.machine.holder? (some d) name = none ↔ AssignsUnready program c node := by
  rw [← hu.unready_iff hchecked huse, holder_eq_none_iff]
  have hbound := hc.bound_iff ho hd hu.outer_ready
  unfold Moment.Bound Moment.store at hbound
  rw [← Option.not_isSome_iff_eq_none, hbound]
  exact Decidable.not_not

/-- Where a method of the superclass is asked for, the object is bound one scope further in. -/
theorem Current.receiver_bound {t : Moment} {target : Reference} {method : Name} {d : Nat}
    {program : List Stmt} {c : Context} (hc : Current c t) (ho : Orderly t)
    (hchecked : Checked program) (hu : Uses program c (.inherited target method))
    (hd : depthIn? "super" c.frames = some d) :
    t.machine.holder? (some (d - 1)) "this" ≠ none := by
  obtain ⟨e, hthis, hsuper⟩ := hu.inherited_depth hchecked
  rw [hsuper] at hd
  cases hd
  have hready : c.frames.head?.bind (Table.get? "this") ≠ some false := by
    have hplain := (hu.fits hchecked.named).innermost
    obtain ⟨setting, layers⟩ := c
    cases layers with
    | nil => simp [Context.frames]
    | cons layer outer =>
      have hhas := (hplain layer rfl).1
      unfold Table.has at hhas
      change Table.get? "this" layer.frame ≠ some false
      intro hfalse
      rw [hfalse] at hhas
      cases hhas
  have hbound := (hc.bound_iff ho hthis hu.outer_ready).2 hready
  rw [Ne, holder_eq_none_iff]
  exact Option.ne_none_iff_isSome.2 hbound

/-- A use with a noted depth finds its name bound and does not fail, with one exception: an assignment in the
initializer of the local variable that it assigns finds no binding, whether it assigns only or reads the
variable before. -/
theorem noted_name_unbound_iff_assigned_in_own_initializer (console : Console) (clock : Clock)
    (runs : List (Nat × String)) (later earlier : History) (node : Expr) (m : Machine)
    (hlog : (Chronicle.of console clock runs).log = later ++ .used node m :: earlier) :
    ∃ program ∈ (Chronicle.of console clock runs).programs, ∃ c, Uses program c node ∧
      ∀ id name d, node.use? = some (id, name) → m.depths[id]? = some d →
        (m.store.binding? (m.store.ancestor d m.current) name = none ↔
          AssignsUnready program c node) ∧
        (∀ line, readName (some d) ⟨name, line⟩ m = .failed ⟨.undefinedVariable name, line⟩ m ↔
          AssignsUnready program c node) ∧
        (∀ line value, writeName (some d) ⟨name, line⟩ value m =
          .failed ⟨.undefinedVariable name, line⟩ m ↔ AssignsUnready program c node) ∧
        ∀ target method, node = .inherited target method →
          m.store.binding? (m.store.ancestor (d - 1) m.current) "this" ≠ none := by
  have hsound := (Chronicle.sane_of console clock runs).good.sound
  obtain ⟨ho, program, hp, hprepared, c, hu, hc⟩ := hsound.justified hlog
  refine ⟨program, hp, c, hu, ?_⟩
  intro id name d huse hdepth
  have hnoted := hprepared.depths id (hu.use_mem hprepared.toChecked huse)
  have hd : depthIn? name c.frames = some d := by
    rw [← hu.noted hprepared.toChecked huse, ← hnoted]
    exact hdepth
  have hholder : m.holder? (some d) name = none ↔ AssignsUnready program c node :=
    hc.unbound_iff ho hprepared.toChecked hu huse hd
  refine ⟨holder_eq_none_iff.symm.trans hholder, ?_, ?_, ?_⟩
  · exact fun line => (readName_fails_iff (some d) ⟨name, line⟩ m).trans hholder
  · exact fun line value => (writeName_fails_iff (some d) ⟨name, line⟩ value m).trans hholder
  · rintro target method rfl
    cases huse
    exact fun h => hc.receiver_bound ho hprepared.toChecked hu hd (holder_eq_none_iff.2 h)

/-- A compound assignment in the initializer of its variable, found by running it. -/
theorem noted_name_unbound_iff_assigned_in_own_initializer_compound :
    ∃ later node m earlier,
      (Chronicle.of {} (fun _ => 0) [(20, "\x7b var a = (a += 1); \x7d")]).log = later ++ .used node m :: earlier ∧
      ∃ program c, AssignsUnready program c node := by
  let runs := [(20, "\x7b var a = (a += 1); \x7d")]
  have hany : (Chronicle.of {} (fun _ => 0) runs).log.any (fun event =>
      match event with
      | .used (.assign target _ _) m => m.depths[target.id]? == some 0 &&
        (m.store.binding? (m.store.ancestor 0 m.current) target.name.text).isNone
      | _ => false) = true := by decide +kernel
  obtain ⟨event, hmem, hevent⟩ := List.any_eq_true.1 hany
  obtain ⟨later, earlier, hlog⟩ := List.append_of_mem hmem
  split at hevent
  · rename_i target operator value m
    rw [Bool.and_eq_true, beq_iff_eq, Option.isNone_iff_eq_none] at hevent
    obtain ⟨program, _, c, _, hiff⟩ :=
      noted_name_unbound_iff_assigned_in_own_initializer {} (fun _ => 0) runs later earlier _ m hlog
    exact ⟨later, _, m, earlier, hlog, program, c, (hiff _ _ 0 rfl hevent.1).1.1 hevent.2⟩
  · cases hevent

/-- Not every use with a noted depth finds its name bound: the assignment here has a depth, and the program
ends with the name undefined. -/
theorem noted_name_may_be_unbound :
    ((Session.start {} (fun _ => 0)).runWith 20 "\x7b var a = (a += 1); \x7d").1.ending =
      .stopped ⟨.undefinedVariable "a", 1⟩ ∧
    ∃ node m id name d,
      .used node m ∈ (Chronicle.of {} (fun _ => 0) [(20, "\x7b var a = (a += 1); \x7d")]).log ∧
      node.use? = some (id, name) ∧ m.depths[id]? = some d ∧
      m.store.binding? (m.store.ancestor d m.current) name = none := by
  refine ⟨by decide +kernel, ?_⟩
  have hany : (Chronicle.of {} (fun _ => 0) [(20, "\x7b var a = (a += 1); \x7d")]).log.any (fun event =>
      match event with
      | .used (.assign target _ _) m => m.depths[target.id]? == some 0 &&
        (m.store.binding? (m.store.ancestor 0 m.current) target.name.text).isNone
      | _ => false) = true := by decide +kernel
  obtain ⟨event, hmem, hevent⟩ := List.any_eq_true.1 hany
  split at hevent
  · rename_i target operator value m
    rw [Bool.and_eq_true, beq_iff_eq, Option.isNone_iff_eq_none] at hevent
    exact ⟨_, m, _, _, 0, hmem, rfl, hevent.1, hevent.2⟩
  · cases hevent

end LoxLang
