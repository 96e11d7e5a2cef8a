import Mathlib.Data.List.Perm.Subperm
import LoxLang.Proofs.Numbering
import LoxLang.Proofs.Relabel.Session
import LoxLang.Proofs.Restoring

/-!
# Every depth is noted once

Resolution comes to each reference of a program once, so that it notes at most one depth for it. Since the
programs of a session are numbered one behind the other, whatever became of them, the session never notes a
depth in place of an earlier one.
-/

namespace LoxLang

/-! ## One walk -/

/-- The walk notes depths for these identities only, and for each at most as often as it is in the list. -/
def Records (walk : Resolution → Resolution) (ids : List NodeId) : Prop :=
  ∀ r, ((walk r).notes.map Note.id).Subperm (ids ++ r.notes.map Note.id)

section Records
variable {f g : Resolution → Resolution} {xs ys : List NodeId}

/-- A walk that adds no notes. -/
theorem records_nothing (h : ∀ r, (f r).notes = r.notes) : Records f [] := fun r => by
  rw [h]
  exact .refl _

theorem Records.comp (hf : Records f xs) (hg : Records g ys) : Records (fun r => g (f r)) (xs ++ ys) := by
  intro r
  have h : (ys ++ (f r).notes.map Note.id).Subperm (ys ++ (xs ++ r.notes.map Note.id)) :=
    (List.subperm_append_left ys).2 (hf r)
  have hp : (ys ++ (xs ++ r.notes.map Note.id)).Perm (xs ++ ys ++ r.notes.map Note.id) := by
    rw [← List.append_assoc]
    exact List.perm_append_comm.append_right _
  exact ((hg (f r)).trans h).trans hp.subperm

theorem Records.mono (hf : Records f xs) (h : xs.Subperm ys) : Records f ys :=
  fun r => (hf r).trans ((List.subperm_append_right _).2 h)

theorem Records.perm (hf : Records f xs) (h : xs.Perm ys) : Records f ys := hf.mono h.subperm

theorem enter_records (names : List String) : Records (Resolution.enter names) [] :=
  records_nothing fun _ => rfl

theorem leave_records : Records Resolution.leave [] := records_nothing fun _ => rfl

theorem declare_notes (name : Name) (r : Resolution) : (r.declare name).notes = r.notes := by
  unfold Resolution.declare
  split
  · rfl
  · dsimp only
    split <;> rfl

theorem define_notes (name : Name) (r : Resolution) : (r.define name).notes = r.notes := by
  unfold Resolution.define
  split <;> rfl

theorem declared_records (name : Name) : Records (fun r => (r.declare name).define name) [] :=
  records_nothing fun r => (define_notes name _).trans (declare_notes name r)

theorem parameters_records (params : List Name) : Records (Resolution.parameters params) [] := by
  unfold Resolution.parameters
  induction params with
  | nil => exact records_nothing fun _ => rfl
  | cons param rest ih => exact (declared_records param).comp ih

theorem bind_records (id : NodeId) (name : String) : Records (Resolution.bind id name) [id] := by
  intro r
  unfold Resolution.bind
  split
  · exact .refl _
  · exact (List.sublist_cons_self id _).subperm

theorem ifReport_records (p : Prop) [Decidable p] (name : Name) (fault : ScopeFault) :
    Records (fun r => if p then r.report name fault else r) [] :=
  records_nothing fun r => by
    split <;> rfl

theorem checkReturn_records (setting : Setting) (keyword : Name) (hasValue : Bool) :
    Records (Resolution.checkReturn setting keyword hasValue) [] :=
  records_nothing fun r => by
    unfold Resolution.checkReturn
    split
    · rfl
    · split <;> rfl
    · rfl

theorem reference_records (target : Reference) : Records (Resolution.reference target) [target.id] := by
  have hready : Records
      (fun r => if r.isUnready target.name.text then r.report target.name .ownInitializer else r) [] :=
    records_nothing fun r => by
      split <;> rfl
  exact hready.comp (bind_records target.id target.name.text)

/-- A use that is reported has no depth noted for it. -/
theorem report_records (name : Name) (fault : ScopeFault) (id : NodeId) :
    Records (Resolution.report name fault) [id] :=
  (records_nothing fun _ => rfl).mono (List.nil_subperm)

theorem receiver_records (setting : Setting) (target : Reference) :
    Records (Resolution.receiver setting target) [target.id] := by
  unfold Resolution.receiver
  split
  · exact report_records _ _ _
  · exact bind_records _ _

theorem inherited_records (setting : Setting) (target : Reference) :
    Records (Resolution.inherited setting target) [target.id] := by
  unfold Resolution.inherited
  split
  · exact report_records _ _ _
  · exact report_records _ _ _
  · exact bind_records _ _

theorem superclass_records (name : Name) (superclass : Option Reference) :
    Records (Resolution.superclass name superclass) (superclassIds superclass) := by
  cases superclass with
  | none => exact records_nothing fun _ => rfl
  | some target =>
    exact ((ifReport_records _ _ _).comp (reference_records target)).comp (enter_records _)

end Records

mutual

theorem expr_records (setting : Setting) : ∀ e : Expr, Records (Resolution.expr setting e) e.ids
  | .literal _ => records_nothing fun _ => rfl
  | .grouping inner => expr_records setting inner
  | .unary _ _ right => expr_records setting right
  | .binary left _ _ right => (expr_records setting left).comp (expr_records setting right)
  | .logical left _ right => (expr_records setting left).comp (expr_records setting right)
  | .reference target => reference_records target
  | .assign target _ value =>
    ((expr_records setting value).comp (bind_records target.id target.name.text)).perm
      (List.perm_append_singleton _ _)
  | .call callee _ _ arguments => (expr_records setting callee).comp (exprs_records setting arguments)
  | .list _ elements => exprs_records setting elements
  | .get object _ => expr_records setting object
  | .set object _ _ value =>
    ((expr_records setting value).comp (expr_records setting object)).perm List.perm_append_comm
  | .setElement object arguments _ _ value =>
    (((expr_records setting value).comp (expr_records setting object)).comp
      (exprs_records setting arguments)).perm (by
        rw [List.append_assoc]
        exact List.perm_append_comm.trans (by rw [Expr.ids, List.append_assoc]))
  | .receiver target => receiver_records setting target
  | .inherited target _ => inherited_records setting target

theorem exprs_records (setting : Setting) :
    ∀ es : List Expr, Records (Resolution.exprs setting es) (itemIds es)
  | [] => records_nothing fun _ => rfl
  | e :: rest => (expr_records setting e).comp (exprs_records setting rest)

end

theorem optional_records (setting : Setting) (value : Option Expr) :
    Records (Resolution.expr? setting value) (optionalIds value) := by
  cases value with
  | none => exact records_nothing fun _ => rfl
  | some e => exact expr_records setting e

/-- What stands between frames notes what it notes without them. -/
theorem Records.framed {f : Resolution → Resolution} {xs : List NodeId} (h : Records f xs)
    (names : List String) : Records (fun r => (f (r.enter names)).leave) xs :=
  (((enter_records names).comp h).comp leave_records).perm (by simp)

mutual

theorem stmt_records (setting : Setting) : ∀ s : Stmt, Records (Resolution.stmt setting s) s.ids
  | .expression value => expr_records setting value
  | .declare name initializer =>
    (((records_nothing (declare_notes name)).comp (optional_records setting initializer)).comp
      (records_nothing (define_notes name))).perm (by simp [Stmt.ids])
  | .block body => (stmts_records setting body).framed []
  | .branch condition thenBranch elseBranch =>
    (((expr_records setting condition).comp (stmt_records setting thenBranch)).comp
      (else_records setting elseBranch)).perm (by simp [Stmt.ids])
  | .loop condition body => (expr_records setting condition).comp (stmt_records setting body)
  | .function declaration =>
    (declared_records declaration.name).comp (functionBody_records _ declaration)
  | .giveBack keyword value =>
    (checkReturn_records setting keyword value.isSome).comp (optional_records setting value)
  | .declareClass name none classMethods =>
    ((declared_records name).comp (superclass_records name none)).comp
      ((methods_records _ classMethods).framed ["this"])
  | .declareClass name (some target) classMethods =>
    ((((declared_records name).comp (superclass_records name (some target))).comp
      ((methods_records _ classMethods).framed ["this"])).comp leave_records).perm (by simp [Stmt.ids])

theorem else_records (setting : Setting) :
    ∀ o : Option Stmt, Records (Resolution.stmt? setting o) (elseIds o)
  | some s => stmt_records setting s
  | none => records_nothing fun _ => rfl

theorem stmts_records (setting : Setting) :
    ∀ body : List Stmt, Records (Resolution.stmts setting body) (bodyIds body)
  | [] => records_nothing fun _ => rfl
  | s :: rest => (stmt_records setting s).comp (stmts_records setting rest)

theorem functionBody_records (setting : Setting) :
    ∀ f : FunctionDecl, Records (Resolution.functionBody setting f) f.ids
  | ⟨_, params, body⟩ => ((parameters_records params).comp (stmts_records setting body)).framed []

theorem methods_records (class_ : ClassSetting) :
    ∀ fs : List FunctionDecl, Records (Resolution.methods class_ fs) (methodIds fs)
  | [] => records_nothing fun _ => rfl
  | f :: rest => (functionBody_records _ f).comp (methods_records class_ rest)

end

/-- Each reference of a program has at most one depth noted for it. -/
theorem resolve_records (program : List Stmt) :
    ((resolve program).notes.map Note.id).Subperm (bodyIds program) := by
  have h := stmts_records {} program {}
  rwa [List.map_nil, List.append_nil] at h

/-! ## A session -/

theorem Distinct.subperm {first next : NodeId} {xs ys : List NodeId} (h : Distinct first ys next)
    (hs : xs.Subperm ys) : Distinct first xs next := by
  obtain ⟨zs, hp, hsub⟩ := hs
  exact ⟨h.le, hp.nodup_iff.1 (h.nodup.sublist hsub), fun id hid => h.bounds id (hsub.subset (hp.mem_iff.2 hid))⟩

theorem checkProgram_distinct {source : String} {first next : NodeId} {program : List Stmt}
    (h : checkProgram source first = (.ok program, next)) : Distinct first (bodyIds program) next :=
  have hn := (wellRead_of_checkProgram h).numbered
  ⟨hn.le, hn.nodup, fun _ hid => hn.bounds hid⟩

namespace Session

/-- The depths that the session notes when it is given a program, the last one first. A program that breaches
the rules on names has depths noted as well. -/
def notes (session : Session) (source : String) : List Note :=
  match (checkProgram source session.nextId).1 with
  | .ok program => (resolve program).notes
  | .error _ => []

/-- The depths that the session notes for programs one after the other, the last one first. -/
def allNotes (session : Session) : List (Nat × String) → List Note
  | [] => []
  | (fuel, source) :: rest => (session.runWith fuel source).2.allNotes rest ++ session.notes source

section
variable (session : Session) (fuel : Nat) (source : String)

theorem notes_distinct : Distinct session.nextId ((session.notes source).map Note.id)
    (session.runWith fuel source).2.nextId := by
  rw [runWith_nextId]
  have hle := le_checkProgram source session.nextId
  unfold notes
  rcases hc : checkProgram source session.nextId with ⟨errors | program, next⟩
  · rw [hc] at hle
    exact distinct_nil hle
  · exact (checkProgram_distinct hc).subperm (resolve_records program)

/-- These notes are all that a program does to the depths. -/
theorem notes_depths : (session.runWith fuel source).2.machine.depths =
    noteDepths session.machine.depths (session.notes source) := by
  unfold notes
  rcases hc : checkProgram source session.nextId with ⟨errors | program, next⟩
  · rw [runWith_unread hc]
    rfl
  · have hnoted : (session.machine.noteAll (resolve program).notes).depths =
        noteDepths session.machine.depths (resolve program).notes := by
      rw [noteAll_eq]
    by_cases he : (resolve program).errors = []
    · rw [Accepted.runWith ⟨hc, he⟩]
      exact (restored_stepwise.runProgram fuel program _).depths.trans hnoted
    · rw [runWith_unsound hc he]
      exact hnoted

end

theorem allNotes_distinct (session : Session) (runs : List (Nat × String)) :
    Distinct session.nextId ((session.allNotes runs).map Note.id) (session.runs runs).nextId := by
  induction runs generalizing session with
  | nil => exact distinct_nil (Nat.le_refl _)
  | cons run rest ih =>
    obtain ⟨fuel, source⟩ := run
    have h := (session.notes_distinct fuel source).append (ih (session.runWith fuel source).2)
    refine h.perm ?_
    rw [allNotes, List.map_append]
    exact List.perm_append_comm

theorem allNotes_depths (session : Session) (runs : List (Nat × String)) :
    (session.runs runs).machine.depths = noteDepths session.machine.depths (session.allNotes runs) := by
  induction runs generalizing session with
  | nil => rfl
  | cons run rest ih =>
    obtain ⟨fuel, source⟩ := run
    have h := ih (session.runWith fuel source).2
    rw [notes_depths] at h
    rw [allNotes, noteDepths, List.foldr_append]
    exact h

/-- Later programs do not touch the depths of earlier identities. -/
theorem runs_depth (session : Session) (runs : List (Nat × String)) {id : NodeId}
    (hid : id < session.nextId) :
    (session.runs runs).machine.depths[id]? = session.machine.depths[id]? := by
  have hapart : ∀ n ∈ session.allNotes runs, n.id ≠ id := fun n hn =>
    Nat.ne_of_gt (Nat.lt_of_lt_of_le hid
      ((session.allNotes_distinct runs).bounds n.id (List.mem_map_of_mem hn)).1)
  have h := noteAll_depths session.machine (session.allNotes runs) id
  rw [noted?_of_apart hapart, Option.none_or, noteAll_eq, ← allNotes_depths] at h
  exact h

end Session

/-- References never share an identity: those of all that is read from a list of tokens, also behind errors,
are told apart and lie between the first identity and the next free one. So a session, whatever its programs
and however they end, notes at most one depth for an identity, and the depths on which the functions of
earlier programs rely stay as they are. -/
theorem references_are_told_apart :
    (∀ (tokens : List Token) (first : NodeId), let parsing := parse tokens first
      Distinct first (bodyIds parsing.statements) parsing.nextId ∧
        ∀ program, parsing.result = .ok program →
          Distinct first (bodyIds program) parsing.nextId) ∧
      ∀ (console : Console) (clock : Clock) (runs : List (Nat × String)),
        let start := Session.start console clock
        let session := start.runs runs
        ((start.allNotes runs).map Note.id).Nodup ∧
          session.machine.depths = noteDepths {} (start.allNotes runs) ∧
          session.Older ∧
          ∀ (later : List (Nat × String)), ∀ id < session.nextId,
            (session.runs later).machine.depths[id]? = session.machine.depths[id]? := by
  constructor
  · intro tokens first parsing
    have h : Distinct first (bodyIds parsing.statements) parsing.nextId := parse_distinct tokens first
    refine ⟨h, fun program hp => ?_⟩
    unfold Parsing.result at hp
    split at hp
    · cases hp
      exact h
    · cases hp
  · intro console clock runs start session
    refine ⟨(start.allNotes_distinct runs).nodup, start.allNotes_depths runs,
      Session.older_runs console clock runs, fun later id hid => session.runs_depth later hid⟩

/-- A list of tokens with errors, whose identities are not given away again, and one without. A session in
which a program breaches a rule, one stops and one runs notes one depth for each; the depth of the second one
is there after a further program. -/
theorem references_are_told_apart_mixed :
    let failing := parse (tokens "b = ; a = \x7b; c;") 3
    let parsing := parse (tokens "a = b;") 3
    let start := Session.start {} (fun _ => 0)
    let runs := [(20, "\x7b var a; a; \x7d return;"), (20, "\x7b var a; a(); \x7d"), (20, "\x7b var a; a; \x7d")]
    let later := [(20, "\x7b var b; b; \x7d")]
    (failing.errors.length, bodyIds failing.statements, failing.nextId) = (2, [5], 6) ∧
      (∃ program, parsing.result = .ok program ∧ Distinct 3 (bodyIds program) parsing.nextId) ∧
      (start.allNotes runs).map Note.id = [2, 1, 0] ∧
      ((start.runs runs).runs later).machine.depths[1]? = some 0 := by
  intro failing parsing start runs later
  have hfailing : (failing.errors.length, bodyIds failing.statements, failing.nextId) = (2, [5], 6) := by
    decide +kernel
  have hnotes : (start.allNotes runs).map Note.id = [2, 1, 0] := by decide +kernel
  have hparsing : parsing.result = .ok parsing.statements := by
    have herrors : parsing.errors = [] := by decide +kernel
    unfold Parsing.result
    rw [herrors]
    rfl
  obtain ⟨hread, hsession⟩ := references_are_told_apart
  have hprogram := (hread (tokens "a = b;") 3).2 _ hparsing
  have hkept (runs later : List (Nat × String)) (hid : 1 < (start.runs runs).nextId)
      (hdepth : (start.runs runs).machine.depths[1]? = some 0) :
      ((start.runs runs).runs later).machine.depths[1]? = some 0 :=
    ((hsession {} (fun _ => 0) runs).2.2.2 later 1 hid).trans hdepth
  have hdepth := hkept runs later (by decide +kernel) (by decide +kernel)
  exact ⟨hfailing, ⟨_, hparsing, hprogram⟩, hnotes, hdepth⟩

end LoxLang
