import LoxLang.Proofs.Heap.Run
import LoxLang.Proofs.Isolation.Session
import LoxLang.Proofs.Renumber.Session

/-!
# The heap of a session

A session begins with a well-formed machine, and all that becomes of it is a matter of changes, whatever its
programs are and however they end. So all searches in the heap come to an end at what is there, and a global
name stays bound.
-/

namespace LoxLang

/-! ## Sessions -/

theorem wellFormed_start (console : Console) (clock : Clock) : (Machine.start console clock).WellFormed := by
  have hinitial := initial_start console clock
  have hsound := start_sound console clock
  constructor
  case current => exact hsound.current
  case globals => exact hsound.globals
  case inward =>
    intro scope outer he
    rw [hinitial.enclosing] at he
    cases he
  case rooted =>
    intro scope hs _
    rw [hinitial.single] at hs
    exact Nat.lt_one_iff.1 hs
  case bindings =>
    intro scope name value hb
    exact ⟨hsound.store.binding hb, (hinitial.bindings scope name value hb).ordered⟩
  case items =>
    intro list value hv
    unfold Store.items at hv
    rw [hinitial.lists] at hv
    exact absurd hv (Array.not_mem_empty value)
  case fields =>
    intro object name value hf
    unfold Store.field? at hf
    rw [hinitial.instances] at hf
    cases hf

theorem Reachable.wellFormed {m : Machine} (h : Reachable m) : m.WellFormed := by
  obtain ⟨console, clock, hc⟩ := h
  exact hc.wellFormed (wellFormed_start console clock)

theorem Reachable.changes {m m' : Machine} (h : Reachable m) (hc : Changes m m') : Reachable m' := by
  obtain ⟨console, clock, h⟩ := h
  exact ⟨console, clock, h.trans hc⟩

theorem runWith_changes {session : Session} (h : session.machine.WellFormed) (fuel : Nat) (source : String) :
    Changes session.machine (session.runWith fuel source).2.machine := by
  rcases hcheck : checkProgram source session.nextId with ⟨errors | program, next⟩
  · rw [runWith_unread hcheck]
  · have hnoted : Change session.machine (session.machine.noteAll (resolve program).notes) := by
      rw [noteAll_eq]
      exact .depths _ _
    by_cases he : (resolve program).errors = []
    · rw [Accepted.runWith ⟨hcheck, he⟩]
      have hrun := leads_runProgram fuel program (hnoted.wellFormed h)
      exact (Relation.ReflTransGen.single hnoted).trans (hrun.path.tail (.console _ _))
    · rw [runWith_unsound hcheck he]
      exact .single hnoted

theorem runs_changes {session : Session} (h : session.machine.WellFormed) (runs : List (Nat × String)) :
    Changes session.machine (session.runs runs).machine := by
  induction runs generalizing session with
  | nil => exact .refl
  | cons first rest ih =>
    have hfirst := runWith_changes h first.1 first.2
    exact hfirst.trans (ih (hfirst.wellFormed h))

theorem runs_reachable (console : Console) (clock : Clock) (runs : List (Nat × String)) :
    Reachable ((Session.start console clock).runs runs).machine := by
  have h : (Session.start console clock).machine.WellFormed := wellFormed_start console clock
  exact ⟨console, clock, runs_changes h runs⟩

/-! ## Searches in a session -/

/-- Whatever is searched for in the machine, the search comes to an end at what is there. The search for a
name goes outward from scope to scope, each made before the one inside, up to the globals; so does the walk
over a number of scopes, which stops there. The search for a method goes from class to class, each made
before the one that extends it. -/
structure Searchable (m : Machine) : Prop where
  outward : ∀ scope < m.store.scopes.size, Outward m.store m.globals scope (m.store.chain scope)
  lookup : ∀ scope < m.store.scopes.size, ∀ name, m.store.lookup? scope name =
    (m.store.binding? scope name).or
      ((m.store.enclosing? scope).bind fun outer => m.store.lookup? outer name)
  assign : ∀ scope < m.store.scopes.size, ∀ name value, m.store.assign? scope name value =
    if (m.store.binding? scope name).isSome then some (m.store.define scope name value)
    else (m.store.enclosing? scope).bind fun outer => m.store.assign? outer name value
  ancestor : ∀ scope < m.store.scopes.size, ∀ distance,
    m.store.ancestor distance scope = (m.store.chain scope)[distance]?.getD m.globals ∧
      m.store.ancestor distance scope < m.store.scopes.size
  method (c : ClassObject) : (Value.classObject c).Proper m.extent → c.Ordered ∧
    ∀ name, c.method? name = (c.lineage.findSome? fun c => c.methods.get? name) ∧
      ∀ f, c.method? name = some f → f.scope < m.store.scopes.size

theorem Machine.WellFormed.searchable {m : Machine} (h : m.WellFormed) : Searchable m where
  outward scope hs := h.outward hs (Nat.lt_succ_self scope)
  lookup _ _ name := h.lookup_eq name
  assign _ _ name value := h.assign_eq name value
  ancestor _ hs distance := ⟨h.ancestor_eq distance hs, h.ancestor_lt distance hs⟩
  method c hc := ⟨hc.ordered, fun name =>
    ⟨ClassObject.method?_eq name c, fun _ hf => ClassObject.Within.method? hc.within hf⟩⟩

/-- A global name that is bound stays bound. -/
theorem Kept.global {m m' : Machine} (hk : Kept m m') (h : m.WellFormed) (h' : m'.WellFormed) {name : String}
    (hb : (m.store.lookup? m.globals name).isSome) : (m'.store.lookup? m'.globals name).isSome := by
  rw [h.lookup_globals] at hb
  rw [h'.lookup_globals, hk.globals]
  exact hk.bindings m.globals name hb

/-- The heap is well formed in every state of a session. All that a session does, whatever its programs are
and however they end, is a matter of changes, and so is all that any function of the evaluator does, from
any such state and with any amount of fuel. In every state nothing dangles and all searches come to an end at
what is there; no change takes a scope, a binding or a field away. So a global name that is bound stays bound
for the rest of the session. -/
theorem heap_stays_well_formed :
    (∀ (console : Console) (clock : Clock) (runs : List (Nat × String)),
      Reachable ((Session.start console clock).runs runs).machine) ∧
    (∀ fuel, LeadsAll fuel) ∧
    (∀ m, Reachable m → m.WellFormed ∧ Searchable m ∧ ∀ m', Change m m' → Reachable m' ∧ Kept m m') ∧
    ∀ (console : Console) (clock : Clock) (runs later : List (Nat × String)),
      let earlier := ((Session.start console clock).runs runs).machine
      let machine := (((Session.start console clock).runs runs).runs later).machine
      Kept earlier machine ∧ ∀ name, (earlier.store.lookup? earlier.globals name).isSome →
        (machine.store.lookup? machine.globals name).isSome := by
  refine ⟨runs_reachable, leadsAll, ?_, ?_⟩
  · intro m h
    refine ⟨h.wellFormed, h.wellFormed.searchable, fun m' hc => ⟨h.changes (.single hc), hc.kept⟩⟩
  · intro console clock runs later earlier machine
    have h : earlier.WellFormed := (runs_reachable console clock runs).wellFormed
    have hlater : Changes earlier machine := runs_changes h later
    exact ⟨hlater.kept, fun name hb => hlater.kept.global h (hlater.wellFormed h) hb⟩

/-- A program that makes circles through a field, a list and a scope and stops, and one that goes round in
them. -/
theorem heap_stays_well_formed_circles :
    let start := Session.start {} (fun _ => 0)
    let runs := [(20, "class A \x7b\x7d class B < A \x7b\x7d var b = B(); b.own = b; var xs = list(); xs.push(xs); " ++
      "\x7b fun f() \x7b return f; \x7d b.f = f; \x7d b();")]
    let later := [(20, "print(b.own.f()() == b.f);")]
    start.reports (runs ++ later) = [⟨.stopped ⟨.notCallable, 1⟩, ""⟩, ⟨.completed, "true\n"⟩] ∧
      (start.runs runs).machine.WellFormed ∧
      ((start.runs runs).runs later).machine.store.lookup? 0 "b" ≠ none := by
  intro start runs later
  have hreports : start.reports (runs ++ later) =
      [⟨.stopped ⟨.notCallable, 1⟩, ""⟩, ⟨.completed, "true\n"⟩] := by decide +kernel
  obtain ⟨hreachable, -, hwell, hkept⟩ := heap_stays_well_formed
  have hb (runs later : List (Nat × String))
      (h : ((start.runs runs).machine.store.lookup? (start.runs runs).machine.globals "b").isSome) :
      ((start.runs runs).runs later).machine.store.lookup? 0 "b" ≠ none := by
    have hlater := (hkept {} (fun _ => 0) runs later).2 "b" h
    have hglobals : ((start.runs runs).runs later).machine.globals = 0 :=
      (runs_scopes (start.runs runs) later).2.trans (runs_scopes start runs).2
    exact Option.ne_none_iff_isSome.2 (hglobals ▸ hlater)
  exact ⟨hreports, (hwell _ (hreachable {} (fun _ => 0) runs)).1, hb runs later (by decide +kernel)⟩

end LoxLang
