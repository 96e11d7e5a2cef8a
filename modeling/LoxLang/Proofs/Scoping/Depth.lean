import LoxLang.Proofs.Scoping.Walk

/-!
# Depths noted for the references of a program

For every part of a program there is a moment of the walk at which resolution comes to it. From that moment
the note of a reference is read off: it is the depth of the name in the context of the reference.
-/

namespace LoxLang

def Piece.walk (setting : Setting) : Piece → Resolution → Resolution
  | .body statements => Resolution.stmts setting statements
  | .stmt s => Resolution.stmt setting s
  | .expr e => Resolution.expr setting e
  | .function f => Resolution.functionBody setting f

def Piece.ids : Piece → List NodeId
  | .body statements => bodyIds statements
  | .stmt s => s.ids
  | .expr e => e.ids
  | .function f => f.ids

/-- The walk through the program comes to the part in the state `r`, and only the walk through the part
notes anything for its references. -/
structure Reached (program : List Stmt) (c : Context) (p : Piece) (r : Resolution)
    (later : List Note) : Prop where
  frames : r.frames = c.frames
  notes : (resolve program).notes = later ++ (p.walk c.setting r).notes
  errors : (p.walk c.setting r).errors <:+ (resolve program).errors
  nodup : p.ids.Nodup
  apart : ∀ n ∈ later ++ r.notes, n.id ∉ p.ids
  inside : p.ids ⊆ bodyIds program

section Reached
variable {program : List Stmt} {c c' : Context} {p q : Piece} {r : Resolution} {later : List Note}
variable {before after : Resolution → Resolution} {xs ys : List NodeId}

/-- A walk through a part that consists of a walk before an inner part, the one through the inner part and
one behind it. -/
theorem Reached.inner (h : Reached program c p r later)
    (hw : p.walk c.setting r = after (q.walk c'.setting (before r)))
    (hf : (before r).frames = c'.frames) (hb : Grows before xs) (ha : Grows after ys)
    (hi : p.ids.Perm (xs ++ (q.ids ++ ys))) : ∃ r later, Reached program c' q r later := by
  obtain ⟨news, hn, hx, -⟩ := hb r
  obtain ⟨news', hn', hy, he'⟩ := ha (q.walk c'.setting (before r))
  have hnodup : (xs ++ (q.ids ++ ys)).Nodup := hi.nodup_iff.1 h.nodup
  have hsplit := List.nodup_append.1 hnodup
  have hsplit' := List.nodup_append.1 hsplit.2.1
  refine ⟨before r, later ++ news', hf, ?_, ?_, hsplit'.1, ?_, ?_⟩
  · rw [h.notes, hw, hn', List.append_assoc]
  · have herrors := h.errors
    rw [hw] at herrors
    exact he'.suffix.trans herrors
  · intro n hm hq
    rw [hn, List.mem_append, List.mem_append, List.mem_append] at hm
    have hp : n.id ∈ p.ids := hi.mem_iff.2 (by simp [hq])
    rcases hm with (hm | hm) | (hm | hm)
    · exact h.apart n (by simp [hm]) hp
    · exact hsplit'.2.2 _ hq _ (hy n hm) rfl
    · exact hsplit.2.2 _ (hx n hm) _ (by simp [hq]) rfl
    · exact h.apart n (by simp [hm]) hp
  · intro id hq
    exact h.inside (hi.mem_iff.2 (by simp [hq]))

/-- The walk through a part begins with the one through an inner part. -/
theorem Reached.first (h : Reached program c p r later)
    (hw : p.walk c.setting r = after (q.walk c'.setting r)) (hf : c.frames = c'.frames)
    (ha : Grows after ys) (hi : p.ids.Perm (q.ids ++ ys)) : ∃ r later, Reached program c' q r later :=
  h.inner hw (h.frames.trans hf) grows_id ha hi

/-- The walk through a part ends with the one through an inner part. -/
theorem Reached.last (h : Reached program c p r later)
    (hw : p.walk c.setting r = q.walk c'.setting (before r)) (hf : (before r).frames = c'.frames)
    (hb : Grows before xs) (hi : p.ids.Perm (xs ++ q.ids)) : ∃ r later, Reached program c' q r later :=
  h.inner hw hf hb grows_id (by simpa using hi)

end Reached

/-! ## Items of lists -/

section Items
variable (setting : Setting)

theorem exprs_append (es es' : List Expr) (r : Resolution) :
    Resolution.exprs setting (es ++ es') r =
      Resolution.exprs setting es' (Resolution.exprs setting es r) := by
  induction es generalizing r with
  | nil => rfl
  | cons e rest ih => exact ih _

theorem itemIds_append (es es' : List Expr) : itemIds (es ++ es') = itemIds es ++ itemIds es' := by
  induction es with
  | nil => rfl
  | cons e rest ih => simp [itemIds, ih]

theorem methods_append (class_ : ClassSetting) (fs fs' : List FunctionDecl) (r : Resolution) :
    Resolution.methods class_ (fs ++ fs') r =
      Resolution.methods class_ fs' (Resolution.methods class_ fs r) := by
  induction fs generalizing r with
  | nil => rfl
  | cons f rest ih => exact ih _

theorem methodIds_append (fs fs' : List FunctionDecl) :
    methodIds (fs ++ fs') = methodIds fs ++ methodIds fs' := by
  induction fs with
  | nil => rfl
  | cons f rest ih => simp [methodIds, ih]

end Items

section Parts
variable {program : List Stmt} {c : Context} {r : Resolution} {later : List Note}
variable {before : Resolution → Resolution} {xs : List NodeId}

theorem Reached.item {p : Piece} {es : List Expr} {e : Expr} (h : Reached program c p r later)
    (hw : p.walk c.setting r = Resolution.exprs c.setting es (before r))
    (hf : (before r).frames = c.frames) (hb : Grows before xs) (hi : p.ids.Perm (xs ++ itemIds es))
    (he : e ∈ es) : ∃ r later, Reached program c (.expr e) r later := by
  obtain ⟨front, back, rfl⟩ := List.append_of_mem he
  have hpieces : p.walk c.setting r = Resolution.exprs c.setting back
      (Piece.walk c.setting (.expr e) (Resolution.exprs c.setting front (before r))) := by
    rw [hw, exprs_append]
    rfl
  have hframes : (Resolution.exprs c.setting front (before r)).frames = c.frames :=
    (exprs_frames _ front _).trans hf
  have hfront := hb.comp (exprs_grows c.setting front)
  have hids : p.ids.Perm (xs ++ itemIds front ++ (e.ids ++ itemIds back)) := by
    simpa [itemIds_append, itemIds] using hi
  exact h.inner hpieces hframes hfront (exprs_grows c.setting back) hids

theorem Reached.part {e part : Expr} (h : Reached program c (.expr e) r later) (hp : part ∈ e.parts) :
    ∃ r later, Reached program c (.expr part) r later := by
  cases e with
  | literal | reference | receiver | inherited => cases hp
  | unary | grouping | get =>
    cases List.mem_singleton.1 hp
    exact h.first rfl rfl grows_id (by simp [Piece.ids, Expr.ids])
  | assign target _ value =>
    cases List.mem_singleton.1 hp
    exact h.first rfl rfl (bind_grows target.id target.name.text)
      (List.perm_append_singleton _ _).symm
  | binary left _ _ right | logical left _ right =>
    simp only [Expr.parts, List.mem_cons, List.not_mem_nil, or_false] at hp
    rcases hp with rfl | rfl
    · exact h.first rfl rfl (expr_grows c.setting right) (.refl _)
    · exact h.last rfl ((expr_frames _ left r).trans h.frames) (expr_grows c.setting left) (.refl _)
  | call callee _ _ arguments =>
    rcases List.mem_cons.1 hp with rfl | hp
    · exact h.first rfl rfl (exprs_grows c.setting arguments) (.refl _)
    · exact h.item rfl ((expr_frames _ callee r).trans h.frames) (expr_grows c.setting callee)
        (.refl _) hp
  | list _ elements => exact h.item rfl h.frames grows_id (.refl _) hp
  | set object _ _ value =>
    simp only [Expr.parts, List.mem_cons, List.not_mem_nil, or_false] at hp
    rcases hp with rfl | rfl
    · exact h.last rfl ((expr_frames _ value r).trans h.frames) (expr_grows c.setting value)
        List.perm_append_comm
    · exact h.first rfl rfl (expr_grows c.setting object) List.perm_append_comm
  | setElement object arguments _ _ value =>
    have hv := (expr_frames c.setting value r).trans h.frames
    have ho := (expr_frames c.setting object _).trans hv
    have hi : (object.ids ++ (itemIds arguments ++ value.ids)).Perm
        (value.ids ++ (object.ids ++ itemIds arguments)) := by
      simpa using @List.perm_append_comm _ (object.ids ++ itemIds arguments) value.ids
    simp only [Expr.parts, List.mem_cons] at hp
    rcases hp with rfl | rfl | hp
    · exact h.inner rfl hv (expr_grows c.setting value) (exprs_grows c.setting arguments) hi
    · exact h.first rfl rfl
        ((expr_grows c.setting object).comp (exprs_grows c.setting arguments)) hi
    · refine h.item rfl ho ((expr_grows c.setting value).comp (expr_grows c.setting object)) ?_ hp
      rwa [List.append_assoc]

end Parts

theorem Reached.method {c : Context} {r : Resolution} {later : List Note} {program : List Stmt}
    {name : Name} {superclass : Option Reference} {methods : List FunctionDecl} {f : FunctionDecl}
    (h : Reached program c (.stmt (.declareClass name superclass methods)) r later)
    (hp : MethodsPlaced methods) (hf : f ∈ methods) :
    ∃ r later, Reached program (c.method name superclass methods f) (.function f) r later := by
  obtain ⟨front, back, rfl⟩ := List.append_of_mem hf
  have hfront : MethodsPlaced front :=
    methodsPlaced_iff.2 fun g hg => methodsPlaced_iff.1 hp g (List.mem_append_left _ hg)
  have hthis := enter_frames (class_frames h.frames name superclass (front ++ f :: back)) (.receiver f)
    ["this"]
  have hframes := methods_frames (Resolution.classSetting superclass) front _ _ hfront hthis
  have hbefore := (((declared_grows name).comp (superclass_grows name superclass)).comp
    (enter_grows ["this"])).comp (methods_grows (Resolution.classSetting superclass) front)
  have hafter := methods_grows (Resolution.classSetting superclass) back
  have hids : (Stmt.ids (.declareClass name superclass (front ++ f :: back))).Perm
      (([] ++ superclassIds superclass ++ [] ++ methodIds front) ++ (f.ids ++ methodIds back)) := by
    simp [Stmt.ids, methodIds_append, methodIds]
  cases superclass with
  | none =>
    refine h.inner ?_ hframes hbefore (hafter.comp leave_grows)
      (by simpa [Piece.ids] using hids)
    exact congrArg Resolution.leave (methods_append _ front (f :: back) _)
  | some target =>
    refine h.inner ?_ hframes hbefore ((hafter.comp leave_grows).comp leave_grows)
      (by simpa [Piece.ids] using hids)
    exact congrArg (fun r => r.leave.leave) (methods_append _ front (f :: back) _)

theorem Reached.superclass {c : Context} {r : Resolution} {later : List Note} {program : List Stmt}
    {name : Name} {target : Reference} {methods : List FunctionDecl}
    (h : Reached program c (.stmt (.declareClass name (some target) methods)) r later) :
    ∃ r later, Reached program (c.declare name.text true) (.expr (.reference target)) r later := by
  have hbefore := (declared_grows name).comp
    (ifReport_grows (fun _ => target.name.text = name.text) target.name .inheritsFromItself)
  have hafter := ((((enter_grows ["super"]).comp (enter_grows ["this"])).comp
    (methods_grows .derived methods)).comp leave_grows).comp leave_grows
  refine h.inner ?_ ?_ hbefore hafter (by simp [Piece.ids, Stmt.ids, superclassIds, Expr.ids])
  · rfl
  · rw [ifReport_frames, declared_frames h.frames name]

/-- Resolution comes to every part of a program, with the frames of its context. -/
theorem Stands.reached {program : List Stmt} {c : Context} {p : Piece} (h : Stands program c p)
    (hn : (bodyIds program).Nodup) (hp : BodyPlaced program) :
    ∃ r later, Reached program c p r later := by
  induction h with
  | program => exact ⟨{}, [], rfl, rfl, List.suffix_rfl, hn, by simp, List.Subset.refl _⟩
  | @head c s rest _ ih =>
    obtain ⟨r, later, h⟩ := ih
    exact h.first rfl rfl (stmts_grows c.setting rest) (.refl _)
  | @tail c s rest hs ih =>
    obtain ⟨r, later, h⟩ := ih
    have hf := stmt_frames c.setting s c r (hs.placed hp).1 h.frames
    refine h.last ?_ hf (stmt_grows c.setting s) (.refl _)
    cases s <;> simp [Context.behind, Piece.walk, Resolution.stmts]
  | expression _ ih =>
    obtain ⟨r, later, h⟩ := ih
    exact h.first rfl rfl grows_id (by simp [Piece.ids, Stmt.ids])
  | @initializer c name e _ ih =>
    obtain ⟨r, later, h⟩ := ih
    refine h.inner ?_ (declare_frames h.frames name) (declare_grows name) (define_grows name)
      (by simp [Piece.ids, Stmt.ids, optionalIds])
    rw [Context.declare_setting]
    rfl
  | @block c body _ ih =>
    obtain ⟨r, later, h⟩ := ih
    exact h.inner rfl (enter_frames h.frames (.block body) []) (enter_grows []) leave_grows
      (by simp [Piece.ids, Stmt.ids])
  | @condition c e s o _ ih =>
    obtain ⟨r, later, h⟩ := ih
    exact h.first rfl rfl ((stmt_grows c.setting s).comp (else_grows c.setting o)) (.refl _)
  | @thenBranch c e s o _ ih =>
    obtain ⟨r, later, h⟩ := ih
    exact h.inner rfl ((expr_frames _ e r).trans h.frames) (expr_grows c.setting e)
      (else_grows c.setting o) (.refl _)
  | @elseBranch c e s t hs ih =>
    obtain ⟨r, later, h⟩ := ih
    have hb := hs.placed hp
    have he := (expr_frames c.setting e r).trans h.frames
    have hf := stmt_frames c.setting s c _ hb.2.1 he
    rw [c.behind_of_not_declaration hb.1] at hf
    exact h.last rfl hf ((expr_grows c.setting e).comp (stmt_grows c.setting s))
      (by simp [Piece.ids, Stmt.ids, elseIds])
  | @loopCondition c e s _ ih =>
    obtain ⟨r, later, h⟩ := ih
    exact h.first rfl rfl (stmt_grows c.setting s) (.refl _)
  | @loopBody c e s _ ih =>
    obtain ⟨r, later, h⟩ := ih
    exact h.last rfl ((expr_frames _ e r).trans h.frames) (expr_grows c.setting e) (.refl _)
  | @value c keyword e _ ih =>
    obtain ⟨r, later, h⟩ := ih
    exact h.last rfl ((checkReturn_frames _ keyword true r).trans h.frames)
      (checkReturn_grows c.setting keyword true) (by simp [Piece.ids, Stmt.ids, optionalIds])
  | @function c f _ ih =>
    obtain ⟨r, later, h⟩ := ih
    refine h.last ?_ (declared_frames h.frames f.name) (declared_grows f.name)
      (by simp [Piece.ids, Stmt.ids])
    simp [Piece.walk, Resolution.stmt, Context.function]
  | @method c name superclass methods f hs hf ih =>
    obtain ⟨r, later, h⟩ := ih
    exact h.method (hs.placed hp) hf
  | @functionBody c f _ ih =>
    obtain ⟨r, later, h⟩ := ih
    cases f with
    | mk name params body =>
      exact h.inner rfl (call_frames h.frames ⟨name, params, body⟩) ((enter_grows []).comp (parameters_grows params))
        leave_grows (by simp [Piece.ids, FunctionDecl.ids])
  | part _ he ih =>
    obtain ⟨r, later, h⟩ := ih
    exact h.part he

/-! ## Notes -/

/-- The depth noted for a reference; the last note counts. -/
def noted? (notes : List Note) (id : NodeId) : Option Nat :=
  (notes.find? fun n => n.id == id).map Note.depth

/-- The identity and the name by which an expression looks for a binding itself. -/
def Expr.use? : Expr → Option (NodeId × String)
  | .reference target => some (target.id, target.name.text)
  | .assign target _ _ => some (target.id, target.name.text)
  | .receiver target => some (target.id, "this")
  | .inherited target _ => some (target.id, "super")
  | _ => none

theorem noted?_append {later notes : List Note} {id : NodeId} (h : ∀ n ∈ later, n.id ≠ id) :
    noted? (later ++ notes) id = noted? notes id := by
  unfold noted?
  rw [List.find?_append, List.find?_eq_none.2 (by simpa using h), Option.none_or]

theorem noted?_of_apart {notes : List Note} {id : NodeId} (h : ∀ n ∈ notes, n.id ≠ id) :
    noted? notes id = none := by
  unfold noted?
  rw [List.find?_eq_none.2 (by simpa using h), Option.map_none]

theorem noted?_bind {r : Resolution} {id : NodeId} (name : String) (h : ∀ n ∈ r.notes, n.id ≠ id) :
    noted? (r.bind id name).notes id = depthIn? name r.frames := by
  unfold Resolution.bind
  split
  · rename_i depth hd
    rw [hd]
    simp [noted?]
  · rename_i hd
    rw [hd, noted?_of_apart h]

theorem noteAll_depths (m : Machine) (notes : List Note) (id : NodeId) :
    (m.noteAll notes).depths[id]? = (noted? notes id).or m.depths[id]? := by
  unfold Machine.noteAll
  induction notes with
  | nil => rfl
  | cons n rest ih =>
    have hinsert : ((rest.foldr (fun note m => m.note note.id note.depth) m).note n.id n.depth).depths[id]? =
        if compare n.id id = .eq then some n.depth
        else (rest.foldr (fun note m => m.note note.id note.depth) m).depths[id]? :=
      Std.TreeMap.getElem?_insert
    rw [List.foldr_cons, hinsert, ih]
    by_cases h : n.id = id
    · simp [h, noted?]
    · simp [h, noted?]

section Uses
variable {program : List Stmt} {c : Context} {e : Expr} {r : Resolution} {later : List Note}
variable {id : NodeId} {name : String}

theorem Reached.no_errors {p : Piece} (h : Reached program c p r later)
    (he : (resolve program).errors = []) : (p.walk c.setting r).errors = [] := by
  have hs := h.errors
  rw [he] at hs
  exact List.suffix_nil.1 hs

/-- A walk that ends by looking for a name notes the depth that it finds. -/
theorem Reached.noted_bind {p : Piece} {last : Resolution} (h : Reached program c p r later)
    (hw : p.walk c.setting r = last.bind id name) (hid : id ∈ p.ids) (hf : last.frames = r.frames)
    (hn : ∀ n ∈ last.notes, n.id ≠ id) :
    noted? (resolve program).notes id = depthIn? name c.frames := by
  have hlater : ∀ n ∈ later, n.id ≠ id := by
    intro n hm hne
    exact h.apart n (List.mem_append_left _ hm) (hne ▸ hid)
  rw [h.notes, noted?_append hlater, hw, noted?_bind name hn, hf, h.frames]

theorem Reached.noted (h : Reached program c (.expr e) r later) (he : (resolve program).errors = [])
    (hu : e.use? = some (id, name)) :
    noted? (resolve program).notes id = depthIn? name c.frames := by
  have hr : id ∈ e.ids → ∀ n ∈ r.notes, n.id ≠ id := by
    intro hid n hm hne
    exact h.apart n (List.mem_append_right _ hm) (hne ▸ hid)
  have hnone := h.no_errors he
  unfold Expr.use? at hu
  split at hu <;> cases hu
  case h_1 target =>
    have hid : target.id ∈ Expr.ids (.reference target) := List.mem_singleton_self _
    refine h.noted_bind rfl hid (ifReport_frames _ _ _ _) ?_
    split
    · exact hr hid
    · exact hr hid
  case h_2 target operator value =>
    have hid : target.id ∈ Expr.ids (.assign target operator value) := List.mem_cons_self
    refine h.noted_bind rfl hid (expr_frames _ value r) ?_
    obtain ⟨new, hn, hnew, -⟩ := expr_grows c.setting value r
    intro n hm hne
    rw [hn] at hm
    rcases List.mem_append.1 hm with hm | hm
    · exact (List.nodup_cons.1 h.nodup).1 (hne ▸ hnew n hm)
    · exact hr hid n hm hne
  case h_3 target =>
    have hid : target.id ∈ Expr.ids (.receiver target) := List.mem_singleton_self _
    have hw : Piece.walk c.setting (.expr (.receiver target)) r = r.bind target.id "this" := by
      simp only [Piece.walk, Resolution.expr, Resolution.receiver] at hnone ⊢
      split at hnone
      · cases hnone
      · rfl
    exact h.noted_bind hw hid rfl (hr hid)
  case h_4 target method =>
    have hid : target.id ∈ Expr.ids (.inherited target method) := List.mem_singleton_self _
    have hw : Piece.walk c.setting (.expr (.inherited target method)) r = r.bind target.id "super" := by
      simp only [Piece.walk, Resolution.expr, Resolution.inherited] at hnone ⊢
      split at hnone
      · cases hnone
      · cases hnone
      · rfl
    exact h.noted_bind hw hid rfl (hr hid)

/-- The name that a statement declares in the scope in which it stands. -/
def Stmt.declaration? : Stmt → Option Name
  | .declare name _ => some name
  | .function f => some f.name
  | .declareClass name _ _ => some name
  | _ => none

/-- The program was read from a text and has no errors of scope. -/
structure Checked (program : List Stmt) : Prop where
  read : ∃ first next, WellRead first program next
  sound : (resolve program).errors = []

theorem Checked.nodup (h : Checked program) : (bodyIds program).Nodup := by
  obtain ⟨_, _, hr⟩ := h.read
  exact hr.numbered.nodup

theorem Checked.named (h : Checked program) : BodyNamed program := by
  obtain ⟨_, _, hr⟩ := h.read
  exact hr.named

theorem Checked.placed (h : Checked program) : BodyPlaced program := by
  obtain ⟨_, _, hr⟩ := h.read
  exact hr.placed

theorem Stands.reach {p : Piece} (h : Stands program c p) (hc : Checked program) :
    ∃ r later, Reached program c p r later := h.reached hc.nodup hc.placed

theorem Expr.use_mem (hu : e.use? = some (id, name)) : id ∈ e.ids := by
  unfold Expr.use? at hu
  split at hu <;> cases hu <;> simp [Expr.ids]

theorem has_of_declare {name : Name} {frame : Frame} (hf : r.frames.head? = some frame)
    (h : (r.declare name).errors = []) : frame.has name.text = false := by
  unfold Resolution.declare at h
  split at h
  · next hnil =>
    rw [hnil] at hf
    cases hf
  · next first outer hcons =>
    rw [hcons] at hf
    cases hf
    dsimp only at h
    cases hhas : frame.has name.text with
    | false => rfl
    | true =>
      rw [if_pos hhas] at h
      cases h

/-- A scope declares no name twice. -/
theorem Stands.undeclared {s : Stmt} {name : Name} (h : Stands program c (.stmt s))
    (hc : Checked program) (hs : s.declaration? = some name) : ∀ frame ∈ c.frames.head?, frame.has name.text = false := by
  obtain ⟨r, later, hreach⟩ := h.reach hc
  have hnone := hreach.no_errors hc.sound
  have hgrows : ∃ rest ids, Grows rest ids ∧ Resolution.stmt c.setting s r = rest (r.declare name) := by
    cases s with
    | declare declared initializer =>
      cases hs
      exact ⟨_, _, (optional_grows c.setting initializer).comp (define_grows name), rfl⟩
    | function f =>
      cases hs
      exact ⟨_, _, (define_grows f.name).comp (functionBody_grows _ f), rfl⟩
    | declareClass declared superclass methods =>
      cases hs
      have hbody := ((define_grows name).comp (superclass_grows name superclass)).comp
        ((enter_grows ["this"]).comp (methods_grows (Resolution.classSetting superclass) methods))
      cases superclass with
      | none => exact ⟨_, _, hbody.comp leave_grows, rfl⟩
      | some target => exact ⟨_, _, (hbody.comp leave_grows).comp leave_grows, rfl⟩
    | _ => cases hs
  obtain ⟨rest, ids, hrest, hwalk⟩ := hgrows
  have hwalk' : Piece.walk c.setting (.stmt s) r = rest (r.declare name) := hwalk
  rw [hwalk'] at hnone
  intro frame hframe
  rw [← hreach.frames] at hframe
  exact has_of_declare hframe (hrest.silent hnone)

/-- Parameters that are declared without an error are all different, and new in the frame. -/
theorem parameters_distinct {params : List Name} {frame : Frame} {outer : List Frame}
    (hf : r.frames = frame :: outer) (he : (Resolution.parameters params r).errors = []) :
    (params.map Name.text).Nodup ∧ ∀ param ∈ params, frame.has param.text = false := by
  induction params generalizing r frame with
  | nil => simp
  | cons param rest ih =>
    have hnil : (r.declare param).errors = [] :=
      ((define_grows param).comp (parameters_grows rest)).silent he
    have hnew := has_of_declare (congrArg List.head? hf) hnil
    have hframes : ((r.declare param).define param).frames = frame.put param.text true :: outer := by
      unfold Resolution.declare
      rw [hf]
      simp [hnew, Resolution.define, Table.put_put]
    obtain ⟨hnodup, hrest⟩ := ih hframes he
    have hother : ∀ other ∈ rest, param.text ≠ other.text ∧ frame.has other.text = false := by
      intro other ho
      have hhas := hrest other ho
      rw [Table.has_put, Bool.or_eq_false_iff] at hhas
      exact ⟨of_decide_eq_false hhas.1, hhas.2⟩
    refine ⟨List.nodup_cons.2 ⟨?_, hnodup⟩, List.forall_mem_cons.2 ⟨hnew, fun other ho => (hother other ho).2⟩⟩
    intro hmem
    obtain ⟨other, ho, hsame⟩ := List.mem_map.1 hmem
    exact (hother other ho).1 hsame.symm

/-- The parameters of a function have different names. -/
theorem Stands.parameters {f : FunctionDecl} (h : Stands program c (.function f)) (hc : Checked program) :
    (f.params.map Name.text).Nodup := by
  obtain ⟨r, later, h⟩ := h.reach hc
  have hnone := h.no_errors hc.sound
  obtain ⟨name, params, body⟩ := f
  have hnil : (Resolution.parameters params (r.enter [])).errors = [] :=
    ((stmts_grows c.setting body).comp leave_grows).silent hnone
  exact (parameters_distinct rfl hnil).1

/-- A class does not extend itself. -/
theorem Stands.superclass_ne {declared : Name} {target : Reference} {methods : List FunctionDecl}
    (h : Stands program c (.stmt (.declareClass declared (some target) methods))) (hc : Checked program) :
    target.name.text ≠ declared.text := by
  obtain ⟨r, later, h⟩ := h.reach hc
  have hnone := h.no_errors hc.sound
  have hrest := (((((reference_grows target).comp (enter_grows ["super"])).comp
    (enter_grows ["this"])).comp (methods_grows .derived methods)).comp leave_grows).comp leave_grows
  intro he
  have hwalk : Piece.walk c.setting (.stmt (.declareClass declared (some target) methods)) r =
      Resolution.leave (Resolution.leave (Resolution.methods .derived methods
        (((if target.name.text = declared.text then
          ((r.declare declared).define declared).report target.name .inheritsFromItself
          else (r.declare declared).define declared).reference target).enter ["super"] |>.enter ["this"]))) :=
    rfl
  rw [hwalk, if_pos he] at hnone
  cases hrest.silent hnone

/-- Resolution comes to a use with a stack of frames as deep as the context, and finds the name where the
context has it. -/
theorem Uses.reach (h : Uses program c e) (hc : Checked program) :
    ∃ c' r later, Reached program c' (.expr e) r later ∧ c'.setting = c.setting ∧
      c'.layers.length = c.layers.length ∧ (∀ id name, e.use? = some (id, name) →
        depthIn? name c'.frames = depthIn? name c.frames ∧
          c'.frames.head?.bind (Table.get? name) = c.frames.head?.bind (Table.get? name)) := by
  cases h with
  | part h =>
    obtain ⟨r, later, h⟩ := h.reach hc
    exact ⟨c, r, later, h, rfl, rfl, fun _ _ _ => ⟨rfl, rfl⟩⟩
  | @superclass declared target methods h =>
    have hne := h.superclass_ne hc
    obtain ⟨_, _, h⟩ := h.reach hc
    obtain ⟨r, later, h⟩ := h.superclass
    refine ⟨c.declare declared.text true, r, later, h, Context.declare_setting _ _ _, ?_, ?_⟩
    · obtain ⟨setting, layers⟩ := c
      cases layers <;> rfl
    · intro id name hu
      cases hu
      obtain ⟨setting, layers⟩ := c
      cases layers with
      | nil => exact ⟨rfl, rfl⟩
      | cons layer outer =>
        have hget : ∀ frame : Frame, (frame.put declared.text true).get? target.name.text =
            frame.get? target.name.text := fun _ => Table.get?_put_ne (Ne.symm hne) _ _
        have hhas : (Table.put declared.text true layer.frame).has target.name.text =
            Table.has target.name.text layer.frame := by
          unfold Table.has
          rw [hget]
        constructor
        · simp only [Context.declare, Context.frames, List.map_cons, depthIn?_cons, hhas]
        · exact hget layer.frame

/-- The depth noted for a use of a name is its depth in the context of the use. -/
theorem Uses.noted (h : Uses program c e) (hc : Checked program) (hu : e.use? = some (id, name)) :
    noted? (resolve program).notes id = depthIn? name c.frames := by
  obtain ⟨c', r, later, h, -, -, hd⟩ := h.reach hc
  rw [h.noted hc.sound hu, (hd id name hu).1]

theorem Uses.use_mem (h : Uses program c e) (hc : Checked program) (hu : e.use? = some (id, name)) :
    id ∈ bodyIds program := by
  obtain ⟨c', r, later, h, -⟩ := h.reach hc
  exact h.inside (Expr.use_mem hu)

/-- A name is not read in front of the end of its own initializer. -/
theorem Uses.ready {target : Reference} (h : Uses program c (.reference target)) (hc : Checked program) :
    c.frames.head?.bind (Table.get? target.name.text) ≠ some false := by
  obtain ⟨c', r, later, h, -, -, hd⟩ := h.reach hc
  rw [← (hd target.id target.name.text rfl).2]
  have hnone := h.no_errors hc.sound
  have hf := h.frames
  intro hfalse
  have hunready : r.isUnready target.name.text = true := by
    unfold Resolution.isUnready
    rw [hf]
    cases hfs : c'.frames with
    | nil => simp [hfs] at hfalse
    | cons first outer =>
      rw [hfs] at hfalse
      have hfirst : first.get? target.name.text = some false := hfalse
      simp [hfirst]
  simp only [Piece.walk, Resolution.expr, Resolution.reference, hunready, if_true] at hnone
  cases (bind_grows target.id target.name.text).silent hnone

/-- The object whose superclass is asked for lies one scope inside the one that names the superclass. -/
theorem Uses.inherited_depth {target : Reference} {method : Name}
    (h : Uses program c (.inherited target method)) (hc : Checked program) :
    ∃ d, depthIn? "this" c.frames = some d ∧ depthIn? "super" c.frames = some (d + 1) := by
  obtain ⟨h⟩ := h
  have hopen : c.Open := h.fits hc.named
  obtain ⟨r, later, h⟩ := h.reach hc
  have hnone := h.no_errors hc.sound
  have hl := hopen.layered
  simp only [Piece.walk, Resolution.expr, Resolution.inherited] at hnone
  split at hnone
  · cases hnone
  · cases hnone
  · rename_i hk
    rw [hk] at hl
    exact hl.super_depth

end Uses

end LoxLang
