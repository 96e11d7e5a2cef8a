import LoxLang.Proofs.Renaming.Scopes

/-!
# Resolving a program in which a variable is renamed

The walks through both programs go side by side: the same depths are noted, and the frame of the scope in
which names are exchanged has them exchanged. A name that is looked for further out passes that frame in both
walks, since neither of the two names can be met on the way unless it is the one that is looked for.
-/

namespace LoxLang

variable {ρ : Renaming} {n : Nesting}

/-! ## Frames -/

/-- The frame with the names exchanged. -/
def renameFrame (ρ : Renaming) (frame : Frame) : Frame :=
  frame.map fun entry => (exchange ρ.old ρ.new entry.1, entry.2)

/-- The frames around a place, of which one has the names exchanged. -/
def renameFrames (ρ : Renaming) : Nesting → List Frame → List Frame
  | none, frames => frames
  | some level, frames => frames.modify level (renameFrame ρ)

theorem renameFrame_get? (frame : Frame) (name : String) :
    (renameFrame ρ frame).get? (exchange ρ.old ρ.new name) = frame.get? name := by
  unfold renameFrame
  induction frame with
  | nil => rfl
  | cons entry rest ih =>
    obtain ⟨key, ready⟩ := entry
    simp only [List.map_cons, Table.get?, (exchange_injective ρ.old ρ.new).eq_iff, ih]

theorem renameFrame_has (frame : Frame) (name : String) :
    (renameFrame ρ frame).has (exchange ρ.old ρ.new name) = frame.has name := by
  unfold Table.has
  rw [renameFrame_get?]

/-- A name that is neither there nor exchanged for one that is there is not found. -/
theorem renameFrame_lookup {frame : Frame} {name : String} (hname : name ≠ ρ.new)
    (hlacks : frame.has ρ.new = false) (hnone : frame.has name = false) :
    (renameFrame ρ frame).get? name = none := by
  have hother : frame.has (exchange ρ.old ρ.new name) = false := by
    by_cases ho : name = ρ.old
    · rw [ho, exchange_old]
      exact hlacks
    · rw [exchange_of_ne ho hname]
      exact hnone
  rw [← exchange_exchange ρ.old ρ.new name, renameFrame_get?]
  exact Option.isNone_iff_eq_none.1 (by rwa [Table.has, Option.isSome_eq_false_iff] at hother)

theorem renameFrame_put (frame : Frame) (name : String) (ready : Bool) :
    renameFrame ρ (frame.put name ready) =
      Table.put (exchange ρ.old ρ.new name) ready (renameFrame ρ frame) := by
  unfold renameFrame
  induction frame with
  | nil => rfl
  | cons entry rest ih =>
    obtain ⟨key, old⟩ := entry
    by_cases h : key = name
    · simp [Table.put, h]
    · simp [Table.put, h, (exchange_injective ρ.old ρ.new).eq_iff, ih]

@[simp] theorem renameFrames_nil : renameFrames ρ n [] = [] := by
  cases n with
  | none => rfl
  | some level => cases level <;> rfl

theorem renameFrames_inner (frame : Frame) (frames : List Frame) :
    renameFrames ρ n.inner (frame :: frames) = frame :: renameFrames ρ n frames := by
  cases n <;> rfl

/-- The innermost frame has the name that is put into it for the one from before. -/
theorem renameFrames_cons (frame : Frame) (outer : List Frame) (name : Name) :
    ∃ frame' outer', renameFrames ρ n (frame :: outer) = frame' :: outer' ∧
      frame'.has (name.rename ρ n).text = frame.has name.text ∧
      ∀ ready, renameFrames ρ n (Table.put name.text ready frame :: outer) =
        Table.put (name.rename ρ n).text ready frame' :: outer' := by
  rcases n with _ | _ | level
  · exact ⟨frame, outer, rfl, by rw [Name.rename_none], fun ready => by rw [Name.rename_none]; rfl⟩
  · refine ⟨renameFrame ρ frame, outer, rfl, renameFrame_has frame name.text, fun ready => ?_⟩
    exact congrArg (· :: outer) (renameFrame_put frame name.text ready)
  · have hsame : name.rename ρ (some (level + 1)) = name := if_neg fun h => by cases h
    exact ⟨frame, outer.modify level (renameFrame ρ), rfl, by rw [hsame], fun ready => by rw [hsame]; rfl⟩

/-- A name that is used for the new one is not met in a frame that has neither. -/
theorem used_lookup {frame : Frame} {depth : Option Nat} {name : String}
    (hlacks : frame.has ρ.new = false) (hname : name ≠ ρ.new) (hnone : frame.has name = false) :
    frame.has (ρ.used n depth name) = false := by
  unfold Renaming.used
  split
  · by_cases ho : name = ρ.old
    · rw [ho, exchange_old]
      exact hlacks
    · rw [exchange_of_ne ho hname]
      exact hnone
  · exact hnone

theorem used_inner (depth : Option Nat) (name : String) :
    ρ.used n.inner (depth.map (· + 1)) name = ρ.used n depth name := by
  unfold Renaming.used Nesting.inner
  cases n <;> cases depth <;> simp

theorem used_here (depth : Option Nat) (name : String) :
    ρ.used (some 0) (depth.map (· + 1)) name = name := by
  unfold Renaming.used
  cases depth <;> simp

/-- A name is found at the same depth. -/
theorem depthIn?_used {name : String} (hname : name ≠ ρ.new) {frames : List Frame}
    (hlacks : ∀ frame ∈ frames, frame.has ρ.new = false) :
    depthIn? (ρ.used n (depthIn? name frames) name) (renameFrames ρ n frames) = depthIn? name frames := by
  induction frames generalizing n with
  | nil => simp [depthIn?]
  | cons frame outer ih =>
    rw [List.forall_mem_cons] at hlacks
    rcases n with _ | _ | level
    · rfl
    · have hframes : renameFrames ρ (some 0) (frame :: outer) = renameFrame ρ frame :: outer := rfl
      rw [hframes, depthIn?_cons, depthIn?_cons]
      cases hhas : frame.has name with
      | true =>
        have hused : ρ.used (some 0) (some 0) name = exchange ρ.old ρ.new name := if_pos ⟨Option.some_ne_none 0, rfl⟩
        rw [if_pos rfl, hused, renameFrame_has, hhas, if_pos rfl]
      | false =>
        have hfalse : (renameFrame ρ frame).has name = false := by
          rw [Table.has, renameFrame_lookup hname hlacks.1 hhas]
          rfl
        rw [if_neg Bool.false_ne_true, used_here, hfalse, if_neg Bool.false_ne_true]
    · have hframes : renameFrames ρ (some (level + 1)) (frame :: outer) =
          frame :: renameFrames ρ (some level) outer := rfl
      rw [hframes, depthIn?_cons, depthIn?_cons]
      cases hhas : frame.has name with
      | true =>
        have hused : ρ.used (some (level + 1)) (some 0) name = name := if_neg fun h => by simp at h
        rw [if_pos rfl, hused, hhas, if_pos rfl]
      | false =>
        have hinner := used_inner (ρ := ρ) (n := some level) (depthIn? name outer) name
        have hused : ρ.used (some (level + 1)) ((depthIn? name outer).map (· + 1)) name =
            ρ.used (some level) (depthIn? name outer) name := hinner
        rw [if_neg Bool.false_ne_true, hused, used_lookup hlacks.1 hname hhas, if_neg Bool.false_ne_true,
          ih hlacks.2]

/-- The innermost frame says the same of a name. -/
theorem innermost_used {name : String} (hname : name ≠ ρ.new) {frames : List Frame}
    (hlacks : ∀ frame ∈ frames, frame.has ρ.new = false) :
    (renameFrames ρ n frames).head?.bind (Table.get? (ρ.used n (depthIn? name frames) name)) =
      frames.head?.bind (Table.get? name) := by
  cases frames with
  | nil => simp
  | cons frame outer =>
    rw [List.forall_mem_cons] at hlacks
    rcases n with _ | _ | level
    · rfl
    · have hframes : renameFrames ρ (some 0) (frame :: outer) = renameFrame ρ frame :: outer := rfl
      rw [hframes, depthIn?_cons]
      cases hhas : frame.has name with
      | true =>
        have hused : ρ.used (some 0) (some 0) name = exchange ρ.old ρ.new name := if_pos ⟨Option.some_ne_none 0, rfl⟩
        rw [if_pos rfl, hused]
        exact renameFrame_get? frame name
      | false =>
        have hget : frame.get? name = none := by
          rwa [Table.has, Option.isSome_eq_false_iff, Option.isNone_iff_eq_none] at hhas
        rw [if_neg Bool.false_ne_true, used_here]
        exact (renameFrame_lookup hname hlacks.1 hhas).trans hget.symm
    · have hframes : renameFrames ρ (some (level + 1)) (frame :: outer) =
          frame :: renameFrames ρ (some level) outer := rfl
      rw [hframes, depthIn?_cons]
      cases hhas : frame.has name with
      | true =>
        have hused : ρ.used (some (level + 1)) (some 0) name = name := if_neg fun h => by simp at h
        rw [if_pos rfl, hused]
        rfl
      | false =>
        have hget {other : String} (h : frame.has other = false) : frame.get? other = none := by
          rwa [Table.has, Option.isSome_eq_false_iff, Option.isNone_iff_eq_none] at h
        rw [if_neg Bool.false_ne_true]
        exact (hget (used_lookup hlacks.1 hname hhas)).trans (hget hhas).symm

/-! ## Two walks -/

/-- The two walks are at the same place of the two programs. -/
structure Alongside (ρ : Renaming) (n : Nesting) (r r' : Resolution) : Prop where
  frames : r'.frames = renameFrames ρ n r.frames
  notes : r'.notes = r.notes
  errors : r.errors = [] → r'.errors = []

namespace Alongside
variable {r r' : Resolution}

theorem report (h : Alongside ρ n r r') (name name' : Name) (fault : ScopeFault) :
    Alongside ρ n (r.report name fault) (r'.report name' fault) :=
  ⟨h.frames, h.notes, nofun⟩

theorem reportIf {p p' : Prop} [Decidable p] [Decidable p'] (h : Alongside ρ n r r') (hp : p' → p)
    (name name' : Name) (fault : ScopeFault) :
    Alongside ρ n (if p then r.report name fault else r) (if p' then r'.report name' fault else r') := by
  by_cases hpos : p
  · rw [if_pos hpos]
    split
    · exact h.report name name' fault
    · exact ⟨h.frames, h.notes, nofun⟩
  · rw [if_neg hpos, if_neg fun hpos' => hpos (hp hpos')]
    exact h

theorem enter (h : Alongside ρ n r r') (names : List String) :
    Alongside ρ n.inner (r.enter names) (r'.enter names) :=
  ⟨by rw [Resolution.enter, Resolution.enter, renameFrames_inner, h.frames], h.notes, h.errors⟩

theorem enter_scope {n' : Nesting} (h : Alongside ρ n r r') (hn : Enters n n') :
    Alongside ρ n' (r.enter []) (r'.enter []) := by
  cases hn with
  | inner => exact h.enter []
  | here => exact ⟨congrArg (List.cons _) h.frames, h.notes, h.errors⟩

theorem leave {n' : Nesting} (h : Alongside ρ n' r r') (hn : Enters n n') :
    Alongside ρ n r.leave r'.leave := by
  refine ⟨?_, h.notes, h.errors⟩
  rw [Resolution.leave, Resolution.leave, h.frames]
  cases hn with
  | inner =>
    cases n with
    | none => rfl
    | some level => cases r.frames <;> simp [Nesting.inner, renameFrames]
  | here => cases r.frames <;> rfl

theorem declare (h : Alongside ρ n r r') (name : Name) :
    Alongside ρ n (r.declare name) (r'.declare (name.rename ρ n)) := by
  have hframes := h.frames
  cases hr : r.frames with
  | nil =>
    rw [hr, renameFrames_nil] at hframes
    unfold Resolution.declare
    rw [hr, hframes]
    exact h
  | cons frame outer =>
    obtain ⟨frame', outer', hcons, hhas, hput⟩ := renameFrames_cons (ρ := ρ) (n := n) frame outer name
    rw [hr, hcons] at hframes
    unfold Resolution.declare
    rw [hr, hframes]
    dsimp only
    rw [hhas]
    have hdeclared : Alongside ρ n { r with frames := frame.put name.text false :: outer }
        { r' with frames := Table.put (name.rename ρ n).text false frame' :: outer' } :=
      ⟨(hput false).symm, h.notes, h.errors⟩
    exact hdeclared.reportIf id name (name.rename ρ n) .redeclared

theorem define (h : Alongside ρ n r r') (name : Name) :
    Alongside ρ n (r.define name) (r'.define (name.rename ρ n)) := by
  have hframes := h.frames
  cases hr : r.frames with
  | nil =>
    rw [hr, renameFrames_nil] at hframes
    unfold Resolution.define
    rw [hr, hframes]
    exact h
  | cons frame outer =>
    obtain ⟨frame', outer', hcons, hhas, hput⟩ := renameFrames_cons (ρ := ρ) (n := n) frame outer name
    rw [hr, hcons] at hframes
    unfold Resolution.define
    rw [hr, hframes]
    exact ⟨(hput true).symm, h.notes, h.errors⟩

theorem declared (h : Alongside ρ n r r') {name : Name} (hl : ρ.Leaves n name) :
    Alongside ρ n ((r.declare name).define name) ((r'.declare name).define name) := by
  have hd := (h.declare name).define name
  rwa [Name.rename_of_leaves hl] at hd

theorem parameters (h : Alongside ρ n r r') (params : List Name) :
    Alongside ρ n (r.parameters params) (r'.parameters (renameNames ρ n params)) := by
  unfold Resolution.parameters renameNames
  induction params generalizing r r' with
  | nil => exact h
  | cons param rest ih => exact ih ((h.declare param).define param)

/-- Something is looked for under the same name, or in the renamed scope under the other one. -/
theorem bind (h : Alongside ρ n r r') (id : NodeId) {name : String} (hname : name ≠ ρ.new)
    (hlacks : ∀ frame ∈ r.frames, frame.has ρ.new = false) {depth : Option Nat}
    (hdepth : depth = depthIn? name r.frames) :
    Alongside ρ n (r.bind id name) (r'.bind id (ρ.used n depth name)) := by
  have hdepth' : depthIn? (ρ.used n depth name) r'.frames = depthIn? name r.frames := by
    rw [h.frames, hdepth, depthIn?_used hname hlacks]
  unfold Resolution.bind
  rw [hdepth']
  split
  · exact ⟨h.frames, congrArg (List.cons _) h.notes, h.errors⟩
  · exact h

theorem isUnready (h : Alongside ρ n r r') {name : String} (hname : name ≠ ρ.new)
    (hlacks : ∀ frame ∈ r.frames, frame.has ρ.new = false) :
    r'.isUnready (ρ.used n (depthIn? name r.frames) name) = r.isUnready name := by
  have hhead (r : Resolution) (name : String) :
      r.isUnready name = (r.frames.head?.bind (Table.get? name) == some false) := by
    unfold Resolution.isUnready
    cases r.frames <;> rfl
  rw [hhead, hhead, h.frames, innermost_used hname hlacks]

theorem reference (h : Alongside ρ n r r') {target : Reference} (hname : target.name.text ≠ ρ.new)
    (hlacks : ∀ frame ∈ r.frames, frame.has ρ.new = false)
    (hdepth : ρ.depth target.id = depthIn? target.name.text r.frames) :
    Alongside ρ n (r.reference target) (r'.reference (target.rename ρ n)) := by
  have hunready : r'.isUnready (target.rename ρ n).name.text = r.isUnready target.name.text := by
    rw [Reference.rename_text, hdepth]
    exact h.isUnready hname hlacks
  have hreport : r'.isUnready (target.rename ρ n).name.text = true → r.isUnready target.name.text = true := by
    rw [hunready]
    exact id
  have hreported := h.reportIf hreport target.name (target.rename ρ n).name .ownInitializer
  have hframes := ifReport_frames (r.isUnready target.name.text = true) target.name .ownInitializer r
  have hbind := hreported.bind target.id hname (by rwa [hframes]) (hdepth.trans (by rw [hframes]))
  rw [← Reference.rename_text] at hbind
  unfold Resolution.reference
  rw [Reference.rename_id]
  exact hbind

/-- A keyword is looked for under its own name. -/
theorem keyword (h : Alongside ρ n r r') {id : NodeId} {name : String} (hname : name ≠ ρ.new)
    (hold : name ≠ ρ.old) (hlacks : ∀ frame ∈ r.frames, frame.has ρ.new = false) :
    Alongside ρ n (r.bind id name) (r'.bind id name) := by
  have hbind := h.bind id hname hlacks rfl
  rwa [used_of_fixed (exchange_of_ne hold hname)] at hbind

theorem receiver (h : Alongside ρ n r r') (setting : Setting) (target : Reference)
    (hname : "this" ≠ ρ.new) (hold : "this" ≠ ρ.old)
    (hlacks : ∀ frame ∈ r.frames, frame.has ρ.new = false) :
    Alongside ρ n (r.receiver setting target) (r'.receiver setting target) := by
  unfold Resolution.receiver
  split
  · exact h.report _ _ _
  · exact h.keyword hname hold hlacks

theorem inherited (h : Alongside ρ n r r') (setting : Setting) (target : Reference)
    (hname : "super" ≠ ρ.new) (hold : "super" ≠ ρ.old)
    (hlacks : ∀ frame ∈ r.frames, frame.has ρ.new = false) :
    Alongside ρ n (r.inherited setting target) (r'.inherited setting target) := by
  unfold Resolution.inherited
  split
  · exact h.report _ _ _
  · exact h.report _ _ _
  · exact h.keyword hname hold hlacks

theorem checkReturn (h : Alongside ρ n r r') (setting : Setting) (keyword : Name) (hasValue : Bool) :
    Alongside ρ n (r.checkReturn setting keyword hasValue) (r'.checkReturn setting keyword hasValue) := by
  unfold Resolution.checkReturn
  split
  · exact h.report _ _ _
  · exact h.reportIf id _ _ _
  · exact h

end Alongside

/-! ## The walk through both programs -/

/-- The renaming is one of this program: it goes by the depths that resolution notes, and neither name means
something else. -/
structure Renaming.Suits (ρ : Renaming) (program : List Stmt) : Prop where
  checked : Checked program
  fresh : ρ.Fresh program
  ordinary : ∀ k : Keyword, ρ.old ≠ k.text
  depth : ∀ id ∈ bodyIds program, ρ.depth id = noted? (resolve program).notes id

section Walk
variable {program : List Stmt} {c : Context} {r r' : Resolution}

theorem Renaming.Suits.depth_of_use (hρ : ρ.Suits program) {e : Expr} {id : NodeId} {name : String}
    (hu : Uses program c e) (he : e.use? = some (id, name)) (hr : r.frames = c.frames) : ρ.depth id = depthIn? name r.frames := by
  rw [hρ.depth id (hu.use_mem hρ.checked he), hu.noted hρ.checked he, hr]

theorem Renaming.Suits.lacks (hρ : ρ.Suits program) {p : Piece} (h : Stands program c p)
    (hr : r.frames = c.frames) :
    ∀ frame ∈ r.frames, frame.has ρ.new = false := by
  rw [hr]
  exact hρ.fresh.lacks h

theorem Renaming.Suits.ne_new (hρ : ρ.Suits program) {p : Piece} (h : Stands program c p) {name : String}
    (hn : name ∈ p.names) :
    name ≠ ρ.new :=
  fun he => hρ.fresh.unused (he ▸ h.names hn)

mutual

theorem Expr.along {r r' : Resolution} (hρ : ρ.Suits program) (setting : Setting) : (e : Expr) →
    Stands program c (.expr e) → r.frames = c.frames →
    Alongside ρ n r r' →
    Alongside ρ n (Resolution.expr setting e r) (Resolution.expr setting (e.rename ρ n) r')
  | .literal _, _, _, h => h
  | .grouping e, hs, hr, h => e.along hρ setting (hs.part List.mem_cons_self) hr h
  | .unary _ _ e, hs, hr, h => e.along hρ setting (hs.part List.mem_cons_self) hr h
  | .get e _, hs, hr, h => e.along hρ setting (hs.part List.mem_cons_self) hr h
  | .binary left _ _ right, hs, hr, h =>
    right.along hρ setting (hs.part (by simp [Expr.parts])) ((expr_frames setting left r).trans hr)
      (left.along hρ setting (hs.part List.mem_cons_self) hr h)
  | .logical left _ right, hs, hr, h =>
    right.along hρ setting (hs.part (by simp [Expr.parts])) ((expr_frames setting left r).trans hr)
      (left.along hρ setting (hs.part List.mem_cons_self) hr h)
  | .reference target, hs, hr, h =>
    h.reference (hρ.ne_new hs List.mem_cons_self) (hρ.lacks hs hr) (hρ.depth_of_use (.part hs) rfl hr)
  | .assign target _ value, hs, hr, h => by
    have hv := value.along hρ setting (hs.part List.mem_cons_self) hr h
    have hr' := (expr_frames setting value r).trans hr
    have hb := hv.bind target.id (hρ.ne_new hs List.mem_cons_self) (hρ.lacks hs hr')
      (hρ.depth_of_use (.part hs) rfl hr')
    rw [← Reference.rename_text] at hb
    rw [Expr.rename, Resolution.expr, Resolution.expr, Reference.rename_id]
    exact hb
  | .call callee _ _ arguments, hs, hr, h =>
    exprs_along hρ setting arguments (fun e he => hs.part (List.mem_cons_of_mem _ he))
      ((expr_frames setting callee r).trans hr) (callee.along hρ setting (hs.part List.mem_cons_self) hr h)
  | .list _ elements, hs, hr, h => exprs_along hρ setting elements (fun e he => hs.part he) hr h
  | .set object _ _ value, hs, hr, h =>
    object.along hρ setting (hs.part List.mem_cons_self) ((expr_frames setting value r).trans hr)
      (value.along hρ setting (hs.part (by simp [Expr.parts])) hr h)
  | .setElement object arguments _ _ value, hs, hr, h =>
    have hv := value.along hρ setting (hs.part (by simp [Expr.parts])) hr h
    have hr := (expr_frames setting value r).trans hr
    have ho := object.along hρ setting (hs.part List.mem_cons_self) hr hv
    exprs_along hρ setting arguments (fun e he => hs.part (by simp [Expr.parts, he]))
      ((expr_frames setting object _).trans hr) ho
  | .receiver target, hs, hr, h =>
    h.receiver setting target (hρ.fresh.free .thisWord).symm (hρ.ordinary .thisWord).symm (hρ.lacks hs hr)
  | .inherited target _, hs, hr, h =>
    h.inherited setting target (hρ.fresh.free .superWord).symm (hρ.ordinary .superWord).symm
      (hρ.lacks hs hr)

theorem exprs_along {r r' : Resolution} (hρ : ρ.Suits program) (setting : Setting) : (es : List Expr) →
    (∀ e ∈ es, Stands program c (.expr e)) →
    r.frames = c.frames → Alongside ρ n r r' →
    Alongside ρ n (Resolution.exprs setting es r) (Resolution.exprs setting (renameItems ρ n es) r')
  | [], _, _, h => h
  | e :: rest, hs, hr, h =>
    exprs_along hρ setting rest (fun e he => hs e (List.mem_cons_of_mem _ he))
      ((expr_frames setting e r).trans hr) (e.along hρ setting (hs e List.mem_cons_self) hr h)

end

theorem optional_along (hρ : ρ.Suits program) (setting : Setting) (value : Option Expr)
    (hs : ∀ e ∈ value, Stands program c (.expr e)) (hr : r.frames = c.frames) (h : Alongside ρ n r r') :
    Alongside ρ n (Resolution.expr? setting value r)
      (Resolution.expr? setting (renameOptional ρ n value) r') := by
  cases value with
  | none => exact h
  | some e => exact e.along hρ setting (hs e rfl) hr h

theorem FunctionRenamed.name_eq {f f' : FunctionDecl} (h : FunctionRenamed ρ n f f') : f'.name = f.name := by
  cases h
  rfl

/-- A superclass is not given the name of the class itself. -/
theorem superclass_along (hρ : ρ.Suits program)
    {name : Name} {superclass : Option Reference} {methods : List FunctionDecl}
    (hs : Stands program c (.stmt (.declareClass name superclass methods)))
    (hr : r.frames = (c.declare name.text true).frames) (h : Alongside ρ n r r') :
    Alongside ρ (n.inClass superclass) (Resolution.superclass name superclass r)
      (Resolution.superclass name (renameSuperclass ρ n superclass) r') := by
  cases superclass with
  | none => exact h
  | some target =>
    have hname : name.text ≠ ρ.new := hρ.ne_new hs List.mem_cons_self
    have htarget : target.name.text ≠ ρ.new := hρ.ne_new hs (by simp [Piece.names, Stmt.names, superclassNames])
    have hne := hs.superclass_ne hρ.checked
    have hne' : (target.rename ρ n).name.text ≠ name.text := by
      rw [Reference.rename_text]
      unfold Renaming.used
      split
      · by_cases ho : target.name.text = ρ.old
        · rw [ho, exchange_old]
          exact hname.symm
        · rwa [exchange_of_ne ho htarget]
      · exact hne
    have hlacks : ∀ frame ∈ r.frames, frame.has ρ.new = false := by
      rw [hr]
      exact (hρ.fresh.lacks hs).declare hname true
    have hdepth : ρ.depth target.id = depthIn? target.name.text r.frames := by
      obtain ⟨_, _, hreach⟩ := hs.reach hρ.checked
      obtain ⟨_, _, hreach⟩ := hreach.superclass
      have hid : target.id ∈ Expr.ids (.reference target) := List.mem_cons_self
      rw [hρ.depth target.id (hreach.inside hid), hreach.noted hρ.checked.sound rfl, hr]
    unfold Resolution.superclass renameSuperclass
    dsimp only
    rw [if_neg hne, if_neg hne']
    exact (h.reference htarget hlacks hdepth).enter ["super"]

mutual

theorem StmtRenamed.along {n : Nesting} {c : Context} {r r' : Resolution}
    (hρ : ρ.Suits program) (setting : Setting) {s s' : Stmt} : StmtRenamed ρ n s s' →
    Stands program c (.stmt s) → r.frames = c.frames → Alongside ρ n r r' →
    Alongside ρ n (Resolution.stmt setting s r) (Resolution.stmt setting s' r')
  | .expression _, hs, hr, h => Expr.along hρ setting _ hs.expression hr h
  | @StmtRenamed.declare _ _ name initializer _, hs, hr, h => by
    have hi : ∀ e ∈ initializer, Stands program (c.declare name.text false) (.expr e) := by
      rintro e rfl
      exact hs.initializer
    have ho := optional_along hρ setting initializer hi (declare_frames hr name) (h.declare name)
    exact ho.define name
  | .block hn hb, hs, hr, h =>
    (hb.along hρ setting hs.block (enter_frames hr _ []) (h.enter_scope hn)).leave hn
  | @StmtRenamed.branch _ _ condition thenBranch _ elseBranch _ _ ht ho, hs, hr, h => by
    have hr' := (expr_frames setting condition r).trans hr
    have hthen := ht.along hρ setting hs.thenBranch hr' (condition.along hρ setting hs.condition hr h)
    have helse : ∀ s ∈ elseBranch, Stands program c (.stmt s) := by
      rintro s rfl
      exact hs.elseBranch
    refine ho.along hρ setting helse ?_ hthen
    have hplaced := hs.placed hρ.checked.placed
    have hbranch : thenBranch.Placed ∧ thenBranch.isDeclaration = false := by
      cases elseBranch with
      | none => exact ⟨hplaced.2, hplaced.1⟩
      | some => exact ⟨hplaced.2.1, hplaced.1⟩
    rw [stmt_frames setting thenBranch c _ hbranch.1 hr', c.behind_of_not_declaration hbranch.2]
  | .loop _ hb, hs, hr, h =>
    hb.along hρ setting hs.loopBody ((expr_frames setting _ r).trans hr)
      (Expr.along hρ setting _ hs.loopCondition hr h)
  | .function hl hf, hs, hr, h => by
    have hd := h.declared hl
    have hb := hf.along hρ { setting with function := .function } hs.function (declared_frames hr _) hd
    rw [Resolution.stmt, Resolution.stmt, hf.name_eq]
    exact hb
  | @StmtRenamed.giveBack _ _ keyword value _, hs, hr, h => by
    have hvalue : ∀ e ∈ value, Stands program c (.expr e) := by
      rintro e rfl
      exact hs.value
    have hcheck := h.checkReturn setting keyword value.isSome
    have hoptional := optional_along hρ setting value hvalue
      ((checkReturn_frames setting keyword value.isSome r).trans hr) hcheck
    cases value <;> exact hoptional
  | @StmtRenamed.declareClass _ _ name superclass methods _ hl _ hm, hs, hr, h => by
    have hd := h.declared hl
    have hsuper := (superclass_along hρ hs (declared_frames hr name) hd).enter ["this"]
    have hmethods := hm.along hρ (Resolution.classSetting superclass)
      (c := (c.class_ name superclass methods).enter (.block []) [("this", true)])
      (fun f hf => ⟨_, hs.method hf, rfl⟩) (enter_frames (class_frames hr name superclass methods) _ ["this"])
      hsuper
    have hleave := hmethods.leave .inner
    cases superclass with
    | none => exact hleave
    | some target => exact hleave.leave .inner

theorem ElseRenamed.along {n : Nesting} {c : Context} {r r' : Resolution}
    (hρ : ρ.Suits program) (setting : Setting) {o o' : Option Stmt} : ElseRenamed ρ n o o' →
    (∀ s ∈ o, Stands program c (.stmt s)) → r.frames = c.frames → Alongside ρ n r r' →
    Alongside ρ n (Resolution.stmt? setting o r) (Resolution.stmt? setting o' r')
  | .none, _, _, h => h
  | .some hs', hs, hr, h => hs'.along hρ setting (hs _ rfl) hr h

theorem FunctionRenamed.along {n : Nesting} {c : Context} {r r' : Resolution}
    (hρ : ρ.Suits program) (setting : Setting) {f f' : FunctionDecl} : FunctionRenamed ρ n f f' →
    Stands program c (.function f) → r.frames = c.frames → Alongside ρ n r r' →
    Alongside ρ n (Resolution.functionBody setting f r) (Resolution.functionBody setting f' r')
  | .intro hn hb, hs, hr, h =>
    (hb.along hρ setting hs.functionBody (call_frames hr _) ((h.enter_scope hn).parameters _)).leave hn

theorem BodyRenamed.along {n : Nesting} {c : Context} {r r' : Resolution}
    (hρ : ρ.Suits program) (setting : Setting) {body body' : List Stmt} : BodyRenamed ρ n body body' →
    Stands program c (.body body) → r.frames = c.frames → Alongside ρ n r r' →
    Alongside ρ n (Resolution.stmts setting body r) (Resolution.stmts setting body' r')
  | .nil, _, _, h => h
  | .cons hs' hb, hs, hr, h =>
    hb.along hρ setting hs.tail (stmt_frames setting _ c r (hs.placed hρ.checked.placed).1 hr)
      (hs'.along hρ setting hs.head hr h)

theorem MethodsRenamed.along {n : Nesting} {c : Context} {r r' : Resolution}
    (hρ : ρ.Suits program) (class_ : ClassSetting) {methods methods' : List FunctionDecl} :
    MethodsRenamed ρ n methods methods' →
    (∀ f ∈ methods, ∃ c', Stands program c' (.function f) ∧ c'.frames = c.frames) →
    r.frames = c.frames → Alongside ρ n r r' →
    Alongside ρ n (Resolution.methods class_ methods r) (Resolution.methods class_ methods' r')
  | .nil, _, _, h => h
  | .cons (f := f) hf hm, hs, hr, h => by
    obtain ⟨c', hf', hframes⟩ := hs f List.mem_cons_self
    have hbody := hf.along hρ (Resolution.methodSetting class_ f.name) hf' (hr.trans hframes.symm) h
    have hrest := hm.along hρ class_ (fun g hg => hs g (List.mem_cons_of_mem _ hg))
      (functionBody_frames _ f c r (hf'.placed hρ.checked.placed) hr) hbody
    rw [Resolution.methods, Resolution.methods, hf.name_eq]
    exact hrest

end

/-- The renamed program is accepted too, with the same depths. -/
theorem BodyRenamed.resolves {program program' : List Stmt} (hρ : ρ.Suits program)
    (h : BodyRenamed ρ none program program') :
    (resolve program').errors = [] ∧ (resolve program').notes = (resolve program).notes := by
  have hstart : Alongside ρ none {} {} := ⟨rfl, rfl, fun _ => rfl⟩
  have hend := h.along hρ {} .program rfl hstart
  exact ⟨hend.errors hρ.checked.sound, hend.notes⟩

end Walk

end LoxLang
