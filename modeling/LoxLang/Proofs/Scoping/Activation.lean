import LoxLang.Proofs.Scoping.Address
import LoxLang.Proofs.Scoping.Method

/-!
# Activations of methods

Where `this` and `super` lead. At a place in a method the scope of the call of the method is on the way out,
and directly around it the scope that binds `this` to the instance that the method was bound to for this call.
If the class extends another, the scope around that one binds `super` to the class that the name of the
superclass was evaluated to when the class statement was run.
-/

namespace LoxLang

theorem Name.Free.not_reserved {n : Name} (h : n.Free) : ¬ Reserved n.text := by
  rintro (hn | hn)
  · exact h.ne_this hn
  · exact h.ne_super hn

section
variable {t : Moment} {s : ScopeId}

/-- Some layers further out there are the scopes of the other layers. -/
theorem Encloses.outward {front back : List Layer} (h : Encloses t (front ++ back) s) :
    Encloses t back (t.store.ancestor front.length s) := by
  induction front generalizing s with
  | nil => exact h
  | cons layer rest ih =>
    cases h with
    | @scope _ _ _ around _ _ _ hs _ ho =>
      have hancestor : t.store.ancestor (rest.length + 1) s = t.store.ancestor rest.length around := by
        rw [Store.ancestor, hs]
      rw [List.length_cons, hancestor]
      exact ih ho

theorem Encloses.holds {layer : Layer} {outer : List Layer} (h : Encloses t (layer :: outer) s) :
    .opened s layer.site ∈ t.log ∧ Holds t s layer.site := by
  cases h with
  | scope _ hl hh _ _ _ => exact ⟨hl, hh⟩

end

/-- The activation of a method, seen from the current scope: so many scopes further out there is the one of
its call, directly around it the one in which the method was bound to an instance, once and for all, and
around that one the scope that the method closes over. -/
structure Activation (t : Moment) (place : MethodPlace) (depth : Nat) (method : Closure)
    (receiver : Value) : Prop where
  declaration : method.declaration = place.method
  called : .opened (t.store.ancestor depth t.machine.current) (.call place.method) ∈ t.log
  bound : .bound (t.store.ancestor (depth + 1) t.machine.current) method receiver ∈ t.log
  only : ∀ other value, .bound (t.store.ancestor (depth + 1) t.machine.current) other value ∈ t.log →
    other = method ∧ value = receiver
  around : t.store.ancestor (depth + 2) t.machine.current = method.scope

section
variable {program : List Stmt} {c : Context} {place : MethodPlace} {inner : List Layer} {t : Moment}

/-- The scope of the call of the method, and the scopes around it. -/
theorem InMethod.called (h : InMethod program c place inner) (hc : Current c t) :
    .opened (t.store.ancestor inner.length t.machine.current) (.call place.method) ∈ t.log := by
  obtain ⟨frame, -, hlayers⟩ := h.layers
  have hscopes := hc.scopes
  rw [hlayers] at hscopes
  exact hscopes.outward.holds.1

theorem InMethod.outward (h : InMethod program c place inner) (hc : Current c t) {front back : List Layer}
    (hl : place.context.layers = front ++ back) :
    Encloses t back (t.store.ancestor (inner.length + (front.length + 1)) t.machine.current) := by
  obtain ⟨frame, -, hlayers⟩ := h.layers
  have hscopes := hc.scopes
  rw [hlayers, hl, ← List.cons_append, ← List.append_assoc] at hscopes
  have houtward := hscopes.outward
  rwa [List.length_append] at houtward

theorem InMethod.activation (h : InMethod program c place inner) (hc : Current c t) (ho : Orderly t) :
    ∃ method id class_, Activation t place inner.length method (.instanceOf id class_) ∧
      t.store.binding? (t.store.ancestor (inner.length + 1) t.machine.current) "this" =
        some (.instanceOf id class_) := by
  have hscopes := @InMethod.outward _ _ _ _ _ h hc [] _ rfl
  obtain ⟨-, method, id, class_, hbound, hd, hs, hthis⟩ := hscopes.holds
  refine ⟨method, id, class_, ⟨hd, h.called hc, hbound, ?_, Store.ancestor_succ hs⟩, hthis⟩
  exact fun other value hother => ho.once _ _ _ _ _ hother hbound

theorem InMethod.superclass (h : InMethod program c place inner) {superclass : Reference}
    (hs : place.superclass = some superclass) (hc : Current c t) :
    ∃ class_, Extends t.log (t.store.ancestor (inner.length + 2) t.machine.current) place.name superclass
        place.methods class_ ∧
      t.store.binding? (t.store.ancestor (inner.length + 2) t.machine.current) "super" =
        some (.classObject class_) := by
  have hlayers : ∃ outer, place.context.layers =
      [⟨.receiver place.method, [("this", true)]⟩] ++
        ⟨.superclass place.name (some superclass) place.methods, [("super", true)]⟩ :: outer := by
    unfold MethodPlace.context Context.method Context.class_
    rw [hs]
    exact ⟨_, rfl⟩
  obtain ⟨outer, hlayers⟩ := hlayers
  obtain ⟨-, target, class_, htarget, hextends, hsuper⟩ := (h.outward hc hlayers).holds
  cases htarget
  exact ⟨class_, hextends, hsuper⟩

end

/-! ## Reading a binding at a depth -/

theorem readName_at {m : Machine} {d : Nat} {name : Name} {value : Value}
    (h : m.store.binding? (m.store.ancestor d m.current) name.text = some value) :
    readName (some d) name m = .done value m := by
  have hholder : m.holder? (some d) name.text = some (m.store.ancestor d m.current) := by
    unfold Machine.holder? Store.binderAt?
    dsimp only
    rw [h]
    rfl
  have hread : readName (some d) name m =
      Effect.ofOption name.line (.undefinedVariable name.text)
        ((m.holder? (some d) name.text).bind fun holder => m.store.binding? holder name.text) m := rfl
  rw [hread, hholder, Option.bind_some, h]
  rfl

theorem readReference_at {m : Machine} {target : Reference} {d : Nat} {value : Value}
    (hd : m.depths[target.id]? = some d)
    (h : m.store.binding? (m.store.ancestor d m.current) target.name.text = some value) :
    readReference target m = .done value m := by
  have hread : readReference target m = readName m.depths[target.id]? target.name m := rfl
  rw [hread, hd, readName_at h]

/-- A reference yields a value that is bound somewhere, or its name is undefined. -/
theorem readReference_cases (target : Reference) (m : Machine) :
    (∃ value scope, m.store.binding? scope target.name.text = some value ∧
      readReference target m = .done value m) ∨
    readReference target m = .failed ⟨.undefinedVariable target.name.text, target.name.line⟩ m := by
  have hread : readReference target m =
      Effect.ofOption target.name.line (.undefinedVariable target.name.text)
        ((m.holder? m.depths[target.id]? target.name.text).bind fun holder =>
          m.store.binding? holder target.name.text) m := rfl
  rw [hread]
  cases hfound : (m.holder? m.depths[target.id]? target.name.text).bind fun holder =>
      m.store.binding? holder target.name.text with
  | none => exact .inr rfl
  | some value =>
    obtain ⟨scope, -, hb⟩ := Option.bind_eq_some_iff.1 hfound
    exact .inl ⟨value, scope, hb, rfl⟩

theorem Traced.bind_done {α β : Type} {t : Traced Event α} {next : α → Traced Event β} {log log' : History}
    {m m' : Machine} {a : α} (h : t.onto log m = (.done a m', log')) :
    (t >>= next).onto log m = (next a).onto log' m' := by
  rw [t.onto_bind, h]

theorem Traced.quiet_done {α : Type} {effect : Effect α} {log : History} {m m' : Machine} {a : α}
    (h : effect m = .done a m') : (Traced.quiet effect).onto log m = (.done a m', log) :=
  congrArg (·, log) h

/-- Where `super` and `this` are bound to a class and an instance in neighbouring scopes, the method is looked
for in that class and bound to that instance. -/
theorem inheritedMethod_at {node : Expr} {target : Reference} {method : Name} {log : History}
    {m : Machine} {d : Nat} {superclass class_ : ClassObject} {id : InstanceId}
    (hd : m.depths[target.id]? = some (d + 1))
    (hs : m.store.binding? (m.store.ancestor (d + 1) m.current) "super" = some (.classObject superclass))
    (ht : m.store.binding? (m.store.ancestor d m.current) "this" = some (.instanceOf id class_)) :
    (tracing.inheritedMethod node target method).onto log m =
      (match superclass.method? method.text with
        | some found => tracing.boundMethod found (.instanceOf id class_)
        | none => Traced.quiet (.fail method.line (.undefinedProperty method.text))).onto
        (.used node m :: log) m := by
  have hsuper : readName (some (d + 1)) ⟨"super", target.name.line⟩ m = .done (.classObject superclass) m :=
    readName_at hs
  have hthis : readName (some d) ⟨"this", target.name.line⟩ m = .done (.instanceOf id class_) m :=
    readName_at ht
  have hdepth : (tracing.depthOf node target.id).onto log m = (.done (some (d + 1)) m, .used node m :: log) := by
    rw [← hd]
    rfl
  have hsome : Effect.ofOption target.name.line (.undefinedVariable "super") (some (d + 1)) m =
      .done (d + 1) m := rfl
  apply (Traced.bind_done hdepth).trans
  apply (Traced.bind_done (Traced.quiet_done hsome)).trans
  apply (Traced.bind_done (Traced.quiet_done hsuper)).trans
  exact Traced.bind_done (Traced.quiet_done hthis)

/-! ## `this` and `super` at a place that is being run -/

section
variable {program : List Stmt} {c : Context} {t : Moment} {target : Reference}

theorem Prepared.depth_eq {m : Machine} {node : Expr} {id : NodeId} {name : String}
    (hp : Prepared program m) (hu : Uses program c node) (huse : node.use? = some (id, name)) :
    m.depths[id]? = depthIn? name c.frames :=
  (hp.depths id (hu.use_mem hp.toChecked huse)).trans (hu.noted hp.toChecked huse)

theorem Uses.receiver_name (hu : Uses program c (.receiver target)) (hn : BodyNamed program) :
    target.name.text = "this" := by
  obtain ⟨h⟩ := hu
  exact h.named hn

/-- `this` is the instance that the method around was bound to for its activation. -/
theorem Current.receiver (hc : Current c t) (ho : Orderly t) (hp : Prepared program t.machine)
    (hu : Uses program c (.receiver target)) :
    ∃ place inner method id class_, InMethod program c place inner ∧
      Activation t place inner.length method (.instanceOf id class_) ∧
      readReference target t.machine = .done (.instanceOf id class_) t.machine := by
  obtain ⟨place, inner, hm⟩ := hu.receiver_inMethod hp.toChecked
  obtain ⟨method, id, class_, hactivation, hthis⟩ := hm.activation hc ho
  have hdepth : t.machine.depths[target.id]? = some (inner.length + 1) :=
    (hp.depth_eq hu rfl).trans hm.receiver_depth
  rw [← hu.receiver_name hp.named] at hthis
  exact ⟨place, inner, method, id, class_, hm, hactivation, readReference_at hdepth hthis⟩

/-- What `super` finds: the instance that the method around was bound to for its activation, and the class
that the name of the superclass was evaluated to. -/
structure FindsSuper (t : Moment) (target : Reference) (place : MethodPlace) (d : Nat) (method : Closure)
    (id : InstanceId) (class_ found : ClassObject) : Prop where
  activation : Activation t place d method (.instanceOf id class_)
  extends_ : ∃ superclass, place.superclass = some superclass ∧
    Extends t.log method.scope place.name superclass place.methods found
  depth : t.machine.depths[target.id]? = some (d + 2)
  super : t.store.binding? (t.store.ancestor (d + 2) t.machine.current) "super" = some (.classObject found)
  this : t.store.binding? (t.store.ancestor (d + 1) t.machine.current) "this" = some (.instanceOf id class_)

theorem Current.inherited {name : Name} (hc : Current c t) (ho : Orderly t)
    (hp : Prepared program t.machine) (hu : Uses program c (.inherited target name)) :
    ∃ place inner method id class_ found, InMethod program c place inner ∧
      FindsSuper t target place inner.length method id class_ found := by
  obtain ⟨place, inner, superclass, hm, hs⟩ := hu.inherited_inMethod hp.toChecked
  obtain ⟨method, id, class_, hactivation, hthis⟩ := hm.activation hc ho
  obtain ⟨found, hextends, hsuper⟩ := hm.superclass hs hc
  have hdepth : t.machine.depths[target.id]? = some (inner.length + 2) :=
    (hp.depth_eq hu rfl).trans (hm.super_depth hs)
  rw [hactivation.around] at hextends
  exact ⟨place, inner, method, id, class_, found, hm,
    ⟨hactivation, ⟨superclass, hs, hextends⟩, hdepth, hsuper, hthis⟩⟩

end

end LoxLang
