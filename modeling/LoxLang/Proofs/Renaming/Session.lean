import LoxLang.Proofs.Heap.Session
import LoxLang.Proofs.Numbering.Session
import LoxLang.Proofs.Renaming.Resolve
import LoxLang.Proofs.Renaming.Run
import LoxLang.Proofs.Renaming.Scan

/-!
# The renamed program in a session

A session holds functions of earlier programs, in which nothing is renamed. So its machine is abreast of
itself, and what a program and the renamed one do to it is the same.
-/

namespace LoxLang

variable {ρ : Renaming}

/-! ## Before the program -/

/-- No scope lies inside the one in which names are exchanged. -/
def World.outside (size : Nat) : World := List.replicate size none

theorem World.outside_nesting {size : Nat} {scope : ScopeId} (h : scope < size) :
    (World.outside size)[scope]? = some none := by
  rw [World.outside, List.getElem?_replicate_of_lt h]

theorem World.eq_none_of_outside {size : Nat} {scope : ScopeId} {n : Nesting}
    (h : (World.outside size)[scope]? = some n) : scope < size ∧ n = none := by
  rw [World.outside, List.getElem?_replicate] at h
  split at h
  · next hlt => exact ⟨hlt, (Option.some.inj h).symm⟩
  · cases h

section Outside
variable {x : Extent}

theorem closuresMatch_outside {c : Closure} (h : c.Within x) :
    ClosuresMatch ρ (World.outside x.scopes) c c :=
  ⟨rfl, rfl, none, World.outside_nesting h, FunctionRenamed.refl _⟩

theorem classesMatch_outside {c : ClassObject} (h : c.Within x) :
    ClassesMatch ρ (World.outside x.scopes) c c := by
  refine ⟨rfl, rfl, fun name => optionRel_self fun f hf => ⟨rfl, rfl, none, ?_, FunctionRenamed.refl _⟩⟩
  rw [World.outside_nesting (ClassObject.Within.method? h hf)]
  rfl

theorem valuesMatch_outside {v : Value} (h : v.Within x) : ValuesMatch ρ (World.outside x.scopes) v v := by
  cases v with
  | function => exact .function (closuresMatch_outside h.2)
  | classObject => exact .classObject (classesMatch_outside h)
  | instanceOf => exact .instanceOf (classesMatch_outside h.2)
  | _ => exact .codeFree trivial

end Outside

/-- A machine that holds earlier code only is abreast of itself. -/
theorem Machine.WellFormed.abreast {m : Machine} (h : m.WellFormed)
    (hdepth : ∀ id, m.depths[id]? = ρ.depth id) :
    Abreast ρ (World.outside m.store.scopes.size) m.current m m := by
  have hvalue {v : Value} (hv : v.Proper m.extent) : ValuesMatch ρ (World.outside m.store.scopes.size) v v :=
    valuesMatch_outside hv.within
  have hstore : StoresMatch ρ (World.outside m.store.scopes.size) m.store m.store := by
    constructor
    case size => exact (List.length_replicate ..).symm
    case size' => exact (List.length_replicate ..).symm
    case enclosing => exact fun _ => rfl
    case inside =>
      intro scope n outer hn he
      obtain ⟨hlt, rfl⟩ := World.eq_none_of_outside hn
      exact ⟨none, World.outside_nesting (Nat.lt_trans (h.inward scope outer he) hlt), .inner (n := none)⟩
    case outermost => exact fun scope n hn _ => (World.eq_none_of_outside hn).2
    case bindings =>
      intro scope n hn name
      obtain ⟨-, rfl⟩ := World.eq_none_of_outside hn
      exact optionRel_self fun v hv => hvalue (h.bindings scope name v hv)
    case lists => rfl
    case items =>
      refine fun list => ⟨rfl, fun i => optionRel_self fun v hv => ?_⟩
      exact hvalue (h.items list v (Array.mem_of_getElem? hv))
    case instances => rfl
    case fields => exact fun object name => optionRel_self fun v hv => hvalue (h.fields object name v hv)
    case nextIdentity => rfl
  constructor
  case store => exact hstore
  case outside => exact World.outside_nesting h.globals
  case depths => exact hdepth
  all_goals rfl

/-! ## Where a name is declared -/

/-- The part is a scope that declares the name as a variable or has it as a parameter. -/
inductive DeclaresLocally (name : String) : Piece → Prop
  | block {body : List Stmt} : DeclaresVariable name body → DeclaresLocally name (.stmt (.block body))
  | call {declared : Name} {params : List Name} {body : List Stmt} :
      (∃ param ∈ params, param.text = name) ∨ DeclaresVariable name body →
      DeclaresLocally name (.function ⟨declared, params, body⟩)

/-- In the scope, which lies inside the part, the names can be exchanged. -/
def Piece.Renames (ρ : Renaming) (scope : Piece) : Piece → Prop
  | .body statements => ∃ statements', RenamesInBody ρ scope statements statements'
  | .stmt s => ∃ s', RenamesInStmt ρ scope s s'
  | .function f => ∃ f', RenamesInFunction ρ scope f f'
  | .expr _ => False

theorem DeclaresLocally.renames {p : Piece} (h : DeclaresLocally ρ.old p) : Piece.Renames ρ p p := by
  cases h with
  | block hd => exact ⟨_, .block hd⟩
  | call hd => exact ⟨_, .call hd⟩

theorem renamesInMethods_of_mem {scope : Piece} {f f' : FunctionDecl} (h : RenamesInFunction ρ scope f f')
    {methods : List FunctionDecl} (hf : f ∈ methods) :
    ∃ methods', RenamesInMethods ρ scope methods methods' := by
  induction methods with
  | nil => cases hf
  | cons first rest ih =>
    rcases List.mem_cons.1 hf with rfl | hf
    · exact ⟨_, .head h⟩
    · obtain ⟨rest', hrest⟩ := ih hf
      exact ⟨first :: rest', .tail hrest⟩

/-- What can be renamed in a part of the program can be renamed in the program. -/
theorem Stands.renames {program : List Stmt} {c : Context} {p scope : Piece} (h : Stands program c p)
    (hp : Piece.Renames ρ scope p) : ∃ program', RenamesInBody ρ scope program program' := by
  induction h with
  | program => exact hp
  | expression | initializer | condition | loopCondition | value | part => exact hp.elim
  | head _ ih =>
    obtain ⟨_, hp⟩ := hp
    exact ih ⟨_, .head hp⟩
  | tail _ ih =>
    obtain ⟨_, hp⟩ := hp
    exact ih ⟨_, .tail hp⟩
  | block _ ih =>
    obtain ⟨_, hp⟩ := hp
    exact ih ⟨_, .inBlock hp⟩
  | thenBranch _ ih =>
    obtain ⟨_, hp⟩ := hp
    exact ih ⟨_, .thenBranch hp⟩
  | elseBranch _ ih =>
    obtain ⟨_, hp⟩ := hp
    exact ih ⟨_, .elseBranch hp⟩
  | loopBody _ ih =>
    obtain ⟨_, hp⟩ := hp
    exact ih ⟨_, .loop hp⟩
  | function _ ih =>
    obtain ⟨_, hp⟩ := hp
    exact ih ⟨_, .function hp⟩
  | method _ hf ih =>
    obtain ⟨_, hp⟩ := hp
    obtain ⟨_, hmethods⟩ := renamesInMethods_of_mem hp hf
    exact ih ⟨_, .method hmethods⟩
  | @functionBody _ f _ ih =>
    obtain ⟨_, hp⟩ := hp
    cases f
    exact ih ⟨_, .inBody hp⟩

section Ordinary
variable {k : Keyword}

theorem DeclaresVariable.ordinary {name : String} {body : List Stmt} (h : DeclaresVariable name body)
    (hn : BodyNamed body) (k : Keyword) : name ≠ k.text := by
  obtain ⟨declared, initializer, hmem, rfl⟩ := h
  induction body with
  | nil => cases hmem
  | cons s rest ih =>
    rcases List.mem_cons.1 hmem with rfl | hmem
    · exact hn.1.1 k
    · exact ih hn.2 hmem

mutual

/-- A variable or parameter is called by no keyword. -/
theorem RenamesInStmt.ordinary {p : Piece} {s s' : Stmt} : RenamesInStmt ρ p s s' → s.Named → ρ.old ≠ k.text
  | .block hd, hn => hd.ordinary hn k
  | .inBlock hb, hn => hb.ordinary hn
  | .thenBranch hs, hn => hs.ordinary hn.2.1
  | .elseBranch hs, hn => hs.ordinary hn.2.2
  | .loop hs, hn => hs.ordinary hn.2
  | .function hf, hn => hf.ordinary hn
  | .method hm, hn => hm.ordinary hn.2.2

theorem RenamesInFunction.ordinary {p : Piece} {f f' : FunctionDecl} : RenamesInFunction ρ p f f' → f.Named →
    ρ.old ≠ k.text
  | .call (.inl ⟨param, hmem, htext⟩), hn => htext ▸ hn.2.1 param hmem k
  | .call (.inr hd), hn => hd.ordinary hn.2.2 k
  | .inBody hb, hn => hb.ordinary hn.2.2

theorem RenamesInBody.ordinary {p : Piece} {body body' : List Stmt} : RenamesInBody ρ p body body' →
    BodyNamed body → ρ.old ≠ k.text
  | .head hs, hn => hs.ordinary hn.1
  | .tail hb, hn => hb.ordinary hn.2

theorem RenamesInMethods.ordinary {p : Piece} {methods methods' : List FunctionDecl} :
    RenamesInMethods ρ p methods methods' → MethodsNamed methods → ρ.old ≠ k.text
  | .head hf, hn => hf.ordinary hn.1
  | .tail hm, hn => hm.ordinary hn.2

end

end Ordinary

/-! ## Running the renamed program -/

/-- The programs end in the same way, but that an undefined variable may be named by the other name. -/
inductive EndingsMatch (old new : String) : Ending → Ending → Prop
  | same {ending : Ending} : EndingsMatch old new ending ending
  | undefined {line : Nat} :
      EndingsMatch old new (.stopped ⟨.undefinedVariable old, line⟩) (.stopped ⟨.undefinedVariable new, line⟩)

/-- Two runs show the same, and the sessions go on with the same identities and depths. -/
structure RunsAlike (old new : String) (run run' : Report × Session) : Prop where
  ending : EndingsMatch old new run.1.ending run'.1.ending
  output : run'.1.output = run.1.output
  depths : run'.2.machine.depths = run.2.machine.depths
  nextId : run'.2.nextId = run.2.nextId

section Outcomes
variable {w : World} {scope : ScopeId} {α : Type} {R : World → α → α → Prop} {o o' : Outcome α}

theorem OutcomesMatch.ending (h : OutcomesMatch ρ w scope R o o') :
    EndingsMatch ρ.old ρ.new o.ending o'.ending := by
  cases h with
  | done => exact .same
  | failed _ he =>
    cases he with
    | same => exact .same
    | undefined => exact .undefined
  | outOfFuel => exact .same

theorem OutcomesMatch.abreast (h : OutcomesMatch ρ w scope R o o') :
    ∃ later, Abreast ρ later scope o.machine o'.machine := by
  cases h with
  | done _ _ ha => exact ⟨_, ha⟩
  | failed _ _ ha => exact ⟨_, ha⟩
  | outOfFuel _ ha => exact ⟨_, ha⟩

end Outcomes

theorem Accepted.checked {first next : NodeId} {source : String} {program : List Stmt}
    (h : Accepted first source program next) : Checked program := ⟨⟨_, _, h.wellRead⟩, h.errors⟩

/-- A new program has the depths that are noted for it, whatever was run before. -/
theorem Accepted.noted (console : Console) (clock : Clock) (history : List (Nat × String)) {source : String}
    {program : List Stmt} {next : NodeId} :
    let session := (Session.start console clock).runs history
    Accepted session.nextId source program next → ∀ id ∈ bodyIds program,
      (session.machine.noteAll (resolve program).notes).depths[id]? = noted? (resolve program).notes id := by
  intro session h id hid
  let start := Session.start console clock
  have hapart : ∀ note ∈ start.allNotes history, note.id ≠ id := by
    intro note hn
    have hlt := ((start.allNotes_distinct history).bounds note.id (List.mem_map_of_mem hn)).2
    exact Nat.ne_of_lt (Nat.lt_of_lt_of_le hlt (h.wellRead.numbered.bounds hid).1)
  have hstart := noteAll_depths start.machine (start.allNotes history) id
  rw [noted?_of_apart hapart, Option.none_or, noteAll_eq, ← start.allNotes_depths] at hstart
  have hnone : session.machine.depths[id]? = none := hstart
  rw [noteAll_depths, hnone, Option.or_none]

/-- The renaming of a local name of the program, by the depths that its resolution notes. -/
abbrev localRenaming (program : List Stmt) (old new : String) : Renaming :=
  ⟨old, new, noted? (resolve program).notes⟩

/-- Local names can be renamed. Wherever a scope of an accepted program declares the old name as a variable or
has it as a parameter, the new name can be put in its place, at the declaration and at the references that
are resolved to it, if it is an identifier that occurs nowhere in the program. The renamed program has a text
that differs in identifiers only; it is accepted, the same depths are noted for it, and in any session, even
if the new name is bound in the globals, it does what the program does. -/
theorem local_names_can_be_renamed (console : Console) (clock : Clock) (history : List (Nat × String))
    (old new : String) (hnew : IsIdentifier new) :
    let session := (Session.start console clock).runs history
    ∀ source program next, Accepted session.nextId source program next → new ∉ bodyNames program →
      ∀ c p, Stands program c p → DeclaresLocally old p →
        let ρ := localRenaming program old new
        (∃ program', RenamesInBody ρ p program program') ∧
        ∀ program', RenamesInBody ρ p program program' →
          ∃ source', TextRenamed ρ source source' ∧ Accepted session.nextId source' program' next ∧
            (resolve program').notes = (resolve program).notes ∧
            ∀ fuel, RunsAlike old new (session.runWith fuel source) (session.runWith fuel source') := by
  intro session source program next h hunused c p hp hd ρ
  refine ⟨hp.renames (DeclaresLocally.renames (ρ := ρ) hd), fun program' hrenames => ?_⟩
  have hc := h.checked
  have hfresh : ρ.Fresh program := ⟨hunused, hnew.free⟩
  have hordinary (k : Keyword) : ρ.old ≠ k.text := hrenames.ordinary hc.named
  have hrenamed : BodyRenamed ρ none program program' := hrenames.renamed hc hfresh (fun _ _ => rfl) .program
  obtain ⟨herrors, hnotes⟩ := hrenamed.resolves ⟨hc, hfresh, hordinary, fun _ _ => rfl⟩
  obtain ⟨source', htext, hcheck⟩ := checkProgram_renamed h.check hnew hunused hrenamed
  have h' : Accepted session.nextId source' program' next := ⟨hcheck, herrors⟩
  refine ⟨source', htext, h', hnotes, fun fuel => ?_⟩
  let m := session.machine.noteAll (resolve program).notes
  have hm : m.WellFormed := by
    have hnoted : Change session.machine m := by
      unfold m
      rw [noteAll_eq]
      exact .depths _ _
    exact hnoted.wellFormed (runs_reachable console clock history).wellFormed
  -- Earlier functions run as well, so the run is told by all depths of the session, which agree on the program.
  let ρ' : Renaming := ρ.withDepth fun id => m.depths[id]?
  have hspares : ρ'.Spares := fun k => exchange_of_ne (hordinary k).symm (hnew.free k).symm
  have hbody : BodyRenamed ρ' none program program' :=
    hrenames.renamed hc hfresh (fun id hid => (h.noted console clock history id hid).symm) .program
  have hrun := runProgram_match hspares fuel hbody (World.outside_nesting hm.current) m m
    (hm.abreast fun _ => rfl)
  obtain ⟨later, habreast⟩ := hrun.abreast
  rw [h.runWith, h'.runWith, hnotes]
  constructor
  case ending => exact hrun.ending
  case output => exact congrArg Console.written habreast.console
  case depths => exact habreast.depths'
  case nextId => rfl

/-- The parameter of a function that a variable hides in a block and that a closure uses. -/
theorem local_names_can_be_renamed_parameter :
    let session := (Session.start {} (fun _ => 0)).runs [(20, "var b = 3;")]
    let source := "fun f(a) \x7b \x7b var a = 2; print(a); \x7d fun g() \x7b return a; \x7d return g; \x7d " ++
      "print(f(1)());"
    ∃ program p program' source' next, DeclaresLocally "a" p ∧
      RenamesInBody (localRenaming program "a" "b") p program program' ∧
      TextRenamed (localRenaming program "a" "b") source source' ∧
      Accepted session.nextId source' program' next ∧ (session.runWith 20 source').1.output = "2\n1\n" := by
  intro session source
  have hnew : IsIdentifier "b" := by
    have hword : "b".toList = ['b'] := by decide +kernel
    have hform : IsForm (.word ['b']) ['b'] := .word (by decide) (by simp)
    refine ⟨hword ▸ hform, fun k => ?_⟩
    cases k <;> decide +kernel
  have hparameter (program : List Stmt) (hany : (program.head?.any fun s =>
      match s with
      | .function f => f.params.any fun param => param.text == "a"
      | _ => false) = true) : ∃ c p, Stands program c p ∧ DeclaresLocally "a" p := by
    obtain ⟨s, hs, h⟩ := (Option.any_eq_true _ _).1 hany
    obtain ⟨rest, rfl⟩ := List.head?_eq_some_iff.1 hs
    split at h
    · next f =>
      obtain ⟨param, hmem, htext⟩ := List.any_eq_true.1 h
      cases f
      exact ⟨_, _, .function (.head .program), .call (.inl ⟨param, hmem, eq_of_beq htext⟩)⟩
    · cases h
  let parsing := parse (tokens source) session.nextId
  have hcheck : checkProgram source session.nextId = (parsing.result, parsing.nextId) := by
    unfold checkProgram
    rw [show lexicalErrors source = [] by decide +kernel]
  have hresult : parsing.result = .ok parsing.statements := by
    unfold Parsing.result
    rw [show parsing.errors = [] by decide +kernel]
    rfl
  have h : Accepted session.nextId source parsing.statements parsing.nextId :=
    ⟨hcheck.trans (by rw [hresult]), by decide +kernel⟩
  have houtput : (session.runWith 20 source).1.output = "2\n1\n" := by decide +kernel
  obtain ⟨c, p, hp, hd⟩ := hparameter parsing.statements (by decide +kernel)
  obtain ⟨⟨program', hrenames⟩, hruns⟩ := local_names_can_be_renamed {} (fun _ => 0) [(20, "var b = 3;")] "a" "b" hnew
    source _ _ h (by decide +kernel) c p hp hd
  obtain ⟨source', htext, h', -, halike⟩ := hruns program' hrenames
  exact ⟨_, p, program', source', _, hd, hrenames, htext, h', (halike 20).output.trans houtput⟩

end LoxLang
