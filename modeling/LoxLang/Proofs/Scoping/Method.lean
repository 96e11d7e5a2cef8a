import LoxLang.Proofs.Scoping.Depth

/-!
# Places in methods

The class and the method in which a part of a program stands. The scopes around a place in a method are those
of the blocks and functions in the method, the scope of the call of the method, the scope for `this` and, if
the class extends another, directly around it the scope for `super`.
-/

namespace LoxLang

/-- A method of a class statement, with the context of the statement. -/
structure MethodPlace where
  outside : Context
  name : Name
  superclass : Option Reference
  methods : List FunctionDecl
  method : FunctionDecl

namespace MethodPlace

/-- The context of the method, which ends with the scope for `this`. -/
def context (place : MethodPlace) : Context :=
  place.outside.method place.name place.superclass place.methods place.method

/-- The class statement stands in the program, and the method is one of its methods. -/
structure In (place : MethodPlace) (program : List Stmt) : Prop where
  stands : Stands program place.outside
    (.stmt (.declareClass place.name place.superclass place.methods))
  member : place.method ∈ place.methods

end MethodPlace

/-- The scope of a block or of a call, in which neither `this` nor `super` is declared. -/
structure Layer.Local (layer : Layer) : Prop where
  site : (∃ body, layer.site = .block body) ∨ ∃ f, layer.site = .call f
  plain : layer.frame.Plain

/-- The place stands in the body of the method: inside a call of it, and there inside the scopes of blocks and
of functions that are declared in it, but of no other method. -/
structure InMethod (program : List Stmt) (c : Context) (place : MethodPlace) (inner : List Layer) :
    Prop extends place.In program where
  layers : ∃ frame, Frame.Plain frame ∧
    c.layers = inner ++ ⟨.call place.method, frame⟩ :: place.context.layers
  setting : c.setting.class_ = Resolution.classSetting place.superclass
  inside : ∀ layer ∈ inner, layer.Local

section
variable {program : List Stmt} {c : Context} {place : MethodPlace} {inner : List Layer}

theorem InMethod.declare (h : InMethod program c place inner) {n : Name} (hn : n.Free) (ready : Bool) :
    ∃ inner, InMethod program (c.declare n.text ready) place inner := by
  obtain ⟨hplace, ⟨frame, hframe, hlayers⟩, hsetting, hinside⟩ := h
  obtain ⟨setting, layers⟩ := c
  cases hlayers
  cases inner with
  | nil => exact ⟨[], hplace, ⟨_, hframe.put hn ready, rfl⟩, hsetting, hinside⟩
  | cons first rest =>
    have hfirst : first.Local := hinside first List.mem_cons_self
    refine ⟨⟨first.site, Table.put n.text ready first.frame⟩ :: rest, hplace, ⟨frame, hframe, rfl⟩,
      hsetting, ?_⟩
    intro layer hl
    rcases List.mem_cons.1 hl with rfl | hl
    · exact ⟨hfirst.site, hfirst.plain.put hn ready⟩
    · exact hinside layer (List.mem_cons_of_mem _ hl)

theorem InMethod.enter (h : InMethod program c place inner) {site : Site} {frame : Frame}
    (hl : Layer.Local ⟨site, frame⟩) :
    InMethod program (c.enter site frame) place (⟨site, frame⟩ :: inner) := by
  obtain ⟨hplace, ⟨callFrame, hframe, hlayers⟩, hsetting, hinside⟩ := h
  refine ⟨hplace, ⟨callFrame, hframe, ?_⟩, hsetting, List.forall_mem_cons.2 ⟨hl, hinside⟩⟩
  exact congrArg (List.cons _) hlayers

/-- The parts of a program stand outside of all classes or in the body of a method. -/
def Situated (program : List Stmt) (c : Context) : Prop :=
  c.setting.class_ = .outside ∨ ∃ place inner, InMethod program c place inner

theorem Situated.declare (h : Situated program c) {n : Name} (hn : n.Free) (ready : Bool) :
    Situated program (c.declare n.text ready) := by
  rcases h with h | ⟨place, inner, h⟩
  · exact .inl ((congrArg Setting.class_ (Context.declare_setting c n.text ready)).trans h)
  · exact .inr ⟨place, h.declare hn ready⟩

theorem Situated.enter (h : Situated program c) {site : Site} {frame : Frame}
    (hl : Layer.Local ⟨site, frame⟩) : Situated program (c.enter site frame) := by
  rcases h with h | ⟨place, inner, h⟩
  · exact .inl h
  · exact .inr ⟨place, _, h.enter hl⟩

theorem Situated.behind (h : Situated program c) {s : Stmt} (hs : s.Named) : Situated program (c.behind s) := by
  cases s with
  | declare => exact h.declare hs.1 true
  | function f =>
    cases f
    exact h.declare hs.1 true
  | declareClass => exact h.declare hs.1 true
  | _ => exact h

/-- A function is a method, or it stands where it is declared. -/
def Piece.Situation (program : List Stmt) (c : Context) : Piece → Prop
  | .function f =>
    Situated program c ∨ ∃ place : MethodPlace, place.method = f ∧ place.In program ∧ c = place.context
  | _ => Situated program c

theorem Stands.situation {p : Piece} (h : Stands program c p) (hn : BodyNamed program) :
    p.Situation program c := by
  induction h with
  | program => exact .inl rfl
  | head _ ih => exact ih
  | tail h ih => exact Situated.behind ih (h.named hn).1
  | initializer h ih => exact Situated.declare ih (h.named hn).1 false
  | @block _ body _ ih => exact Situated.enter ih ⟨.inl ⟨body, rfl⟩, ⟨rfl, rfl⟩⟩
  | @function _ f h ih =>
    have hf := h.named hn
    have hd : Situated program _ := Situated.declare ih (n := f.name) (by cases f; exact hf.1) true
    rcases hd with hd | ⟨place, inner, hd⟩
    · exact .inl (.inl hd)
    · exact .inl (.inr ⟨place, inner, { hd with }⟩)
  | @method _ name superclass methods f h hf ih =>
    exact .inr ⟨⟨_, name, superclass, methods, f⟩, rfl, ⟨h, hf⟩, rfl⟩
  | @functionBody c f h ih =>
    have hf := h.named hn
    have hplain : (Context.parameterFrame f.params).Plain := by
      cases f
      exact parameterFrame_plain hf.2.1
    rcases ih with ih | ⟨place, rfl, hplace, rfl⟩
    · exact ih.enter ⟨.inr ⟨f, rfl⟩, hplain⟩
    · exact .inr ⟨place, [], hplace, ⟨_, hplain, rfl⟩, rfl, by simp⟩
  | _ => assumption

theorem Uses.situated {e : Expr} (h : Uses program c e) (hn : BodyNamed program) : Situated program c := by
  cases h with
  | part h => exact h.situation hn
  | superclass h => exact h.situation hn

end

/-! ## `this` and `super` in methods -/

section
variable {program : List Stmt} {c : Context} {target : Reference} {method : Name}

/-- There is no `this` outside of classes. -/
theorem Uses.receiver_inMethod (h : Uses program c (.receiver target)) (hc : Checked program) :
    ∃ place inner, InMethod program c place inner := by
  rcases h.situated hc.named with ho | hm
  · obtain ⟨h⟩ := h
    obtain ⟨r, later, h⟩ := h.reach hc
    have hnone := h.no_errors hc.sound
    simp only [Piece.walk, Resolution.expr, Resolution.receiver, ho] at hnone
    cases hnone
  · exact hm

/-- There is no `super` but in classes that extend another. -/
theorem Uses.inherited_inMethod (h : Uses program c (.inherited target method)) (hc : Checked program) :
    ∃ place inner superclass, InMethod program c place inner ∧ place.superclass = some superclass := by
  have hsituated := h.situated hc.named
  obtain ⟨h⟩ := h
  obtain ⟨r, later, h⟩ := h.reach hc
  have hnone := h.no_errors hc.sound
  simp only [Piece.walk, Resolution.expr, Resolution.inherited] at hnone
  rcases hsituated with ho | ⟨place, inner, hm⟩
  · rw [ho] at hnone
    cases hnone
  · rw [hm.setting] at hnone
    cases hs : place.superclass with
    | none =>
      rw [hs] at hnone
      cases hnone
    | some superclass => exact ⟨place, inner, superclass, hm, hs⟩

end

section
variable {program : List Stmt} {c : Context} {place : MethodPlace} {inner : List Layer}

theorem depthIn?_skip {name : String} {layers outer : List Layer}
    (h : ∀ layer ∈ layers, layer.frame.has name = false) :
    depthIn? name ((layers ++ outer).map Layer.frame) =
      (depthIn? name (outer.map Layer.frame)).map (· + layers.length) := by
  induction layers with
  | nil => simp
  | cons first rest ih =>
    rw [List.cons_append, List.map_cons, depthIn?_cons, h first List.mem_cons_self,
      ih fun layer hl => h layer (List.mem_cons_of_mem _ hl)]
    cases depthIn? name (outer.map Layer.frame) <;> simp [Nat.add_assoc]

/-- The scope for `this` is the one around the call of the method. -/
theorem InMethod.receiver_depth (h : InMethod program c place inner) :
    depthIn? "this" c.frames = some (inner.length + 1) := by
  obtain ⟨frame, hframe, hlayers⟩ := h.layers
  unfold Context.frames
  rw [hlayers, depthIn?_skip fun layer hl => (h.inside layer hl).plain.1, List.map_cons, depthIn?_cons,
    hframe.1]
  simp [MethodPlace.context, Context.method, Context.enter, depthIn?_cons, Table.has, Table.get?,
    Nat.add_comm]

/-- The scope for `super` is the one around that. -/
theorem InMethod.super_depth (h : InMethod program c place inner) {superclass : Reference}
    (hs : place.superclass = some superclass) : depthIn? "super" c.frames = some (inner.length + 2) := by
  obtain ⟨frame, hframe, hlayers⟩ := h.layers
  unfold Context.frames
  rw [hlayers, depthIn?_skip fun layer hl => (h.inside layer hl).plain.2, List.map_cons, depthIn?_cons,
    hframe.2]
  simp [MethodPlace.context, Context.method, Context.class_, hs, Context.enter, depthIn?_cons, Table.has,
    Table.get?, Nat.add_comm]

end

end LoxLang
