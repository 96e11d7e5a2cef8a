import LoxLang.Proofs.Fault
import LoxLang.Proofs.Scoping.Depth
import LoxLang.Proofs.Scoping.Trace
import LoxLang.Proofs.Store

/-!
# The invariant of a run

At every moment of a run the current scope lies inside exactly the scopes that the text puts around the
place that is being run, one for each layer of its context and opened for that layer, and around them lie
the globals. The same holds of the scope of every closure in the store. Scopes are only added, and what
lies around a scope never changes, so a closure keeps its place. Nor does what a scope binds `this` or `super`
to ever change.
-/

namespace LoxLang

/-- A moment of a run: what happened so far, and the machine. -/
structure Moment where
  log : History
  machine : Machine

namespace Moment

abbrev store (t : Moment) : Store := t.machine.store

def Bound (t : Moment) (scope : ScopeId) (name : String) : Prop := (t.store.binding? scope name).isSome

end Moment

/-- The scope was opened by the class statement right after the name of its superclass had been evaluated, to
this class. -/
def Extends (log : History) (s : ScopeId) (name : Name) (target : Reference) (methods : List FunctionDecl)
    (class_ : ClassObject) : Prop :=
  ∃ later m earlier, log = later ++
      .opened s (.superclass name (some target) methods) :: .used (.reference target) m :: earlier ∧
    readReference target m = .done (.classObject class_) m

/-- What a scope for `this` or `super` binds: the instance that a method was bound to, or the class that the
name of the superclass was evaluated to. -/
def Holds (t : Moment) (s : ScopeId) : Site → Prop
  | .receiver f => ∃ method id class_, .bound s method (.instanceOf id class_) ∈ t.log ∧
      method.declaration = f ∧ t.store.enclosing? s = some method.scope ∧
      t.store.binding? s "this" = some (.instanceOf id class_)
  | .superclass name superclass methods => ∃ target class_, superclass = some target ∧
      Extends t.log s name target methods class_ ∧ t.store.binding? s "super" = some (.classObject class_)
  | _ => True

/-- A scope and those around it are the scopes of these layers, and the outermost scope is the globals. -/
inductive Encloses (t : Moment) : List Layer → ScopeId → Prop
  | globals : Encloses t [] t.machine.globals
  | scope {layer : Layer} {outer : List Layer} {s around : ScopeId} :
      s ≠ t.machine.globals → .opened s layer.site ∈ t.log → Holds t s layer.site →
      t.store.enclosing? s = some around →
      (∀ name, layer.frame.get? name = some true → t.Bound s name) →
      Encloses t outer around → Encloses t (layer :: outer) s

/-- The place that is being run: the scopes of its context, the innermost of which binds the names that are
ready and no others. -/
structure Current (c : Context) (t : Moment) : Prop where
  scopes : Encloses t c.layers t.machine.current
  exact : ∀ layer ∈ c.layers.head?, ∀ name,
    t.Bound t.machine.current name ↔ layer.frame.get? name = some true

/-! ## Values -/

section
variable (programs : List (List Stmt)) (t : Moment)

/-- The closure of a function of one of the programs, with the scopes of its declaration. The scope of an
initializer is one for `this`. -/
def GoodClosure (f : Closure) : Prop :=
  ∃ program ∈ programs, ∃ c, Stands program c (.function f.declaration) ∧ Encloses t c.layers f.scope ∧
    (f.isInitializer = true →
      ∃ outer, c.layers = ⟨.receiver f.declaration, [("this", true)]⟩ :: outer)

/-- The closure of a method that is not bound to an instance, so that its scope for `this` is still
missing. -/
def GoodMethod (f : Closure) : Prop :=
  ∃ program ∈ programs, ∃ c outer, Stands program c (.function f.declaration) ∧
    c.layers = ⟨.receiver f.declaration, [("this", true)]⟩ :: outer ∧ Encloses t outer f.scope

/-- All methods of the class, its own and inherited ones, are methods of the programs. An initializer is what
goes by the name of one. -/
def GoodClass (c : ClassObject) : Prop :=
  ∀ name f, c.method? name = some f → GoodMethod programs t f ∧ f.isInitializer = (name == initializerName)

def GoodValue : Value → Prop
  | .function _ f => GoodClosure programs t f
  | .classObject c => GoodClass programs t c
  | .instanceOf _ c => GoodClass programs t c
  | _ => True

end

/-- The program was checked, and its depths are noted in the machine. -/
structure Prepared (program : List Stmt) (m : Machine) : Prop extends Checked program where
  depths : ∀ id ∈ bodyIds program, m.depths[id]? = noted? (resolve program).notes id

/-- What the scopes and the history are like. -/
structure Orderly (t : Moment) : Prop where
  inward : ∀ s around, t.store.enclosing? s = some around → around < s
  outermost : t.store.enclosing? t.machine.globals = none
  present : t.machine.globals < t.store.scopes.size
  recorded : ∀ s site, .opened s site ∈ t.log → s < t.store.scopes.size
  unique : ∀ s site site', .opened s site ∈ t.log → .opened s site' ∈ t.log → site = site'
  bound : ∀ s method receiver, .bound s method receiver ∈ t.log →
    .opened s (.receiver method.declaration) ∈ t.log
  once : ∀ s method method' receiver receiver', .bound s method receiver ∈ t.log →
    .bound s method' receiver' ∈ t.log → method = method' ∧ receiver = receiver'

/-- The use stands somewhere in one of the programs, and that place is being run. -/
def Justified (programs : List (List Stmt)) (t : Moment) (node : Expr) : Prop :=
  Orderly t ∧ ∃ program ∈ programs, Prepared program t.machine ∧ ∃ c, Uses program c node ∧ Current c t

/-- Every use in the history was justified when it was recorded. -/
def Sound (programs : List (List Stmt)) : History → Prop
  | [] => True
  | .opened _ _ :: earlier => Sound programs earlier
  | .bound _ _ _ :: earlier => Sound programs earlier
  | .used node m :: earlier => Justified programs ⟨earlier, m⟩ node ∧ Sound programs earlier

/-- A moment between the steps of a run. -/
structure Good (programs : List (List Stmt)) (t : Moment) : Prop extends Orderly t where
  prepared : ∀ program ∈ programs, Prepared program t.machine
  bindings : ∀ s name value, t.store.binding? s name = some value → GoodValue programs t value
  items : ∀ list, ∀ value ∈ t.store.items list, GoodValue programs t value
  fields : ∀ object name value, t.store.field? object name = some value → GoodValue programs t value
  sound : Sound programs t.log

/-- A later moment. All scopes bind the same names as before, but for new scopes and the one that may be
changed, and `this` and `super` to the same values. -/
structure Later (own : Option ScopeId) (t t' : Moment) : Prop where
  log : t.log <:+ t'.log
  current : t'.machine.current = t.machine.current
  globals : t'.machine.globals = t.machine.globals
  depths : t'.machine.depths = t.machine.depths
  size : t.store.scopes.size ≤ t'.store.scopes.size
  enclosing : ∀ s < t.store.scopes.size, t'.store.enclosing? s = t.store.enclosing? s
  bound : ∀ s name, t.Bound s name → t'.Bound s name
  names : ∀ s < t.store.scopes.size, some s ≠ own → ∀ name, t'.Bound s name → t.Bound s name
  kept : ∀ s name value, Reserved name → t.store.binding? s name = some value →
    t'.store.binding? s name = some value

/-! ## Later moments -/

section Later
variable {own : Option ScopeId} {t t' t'' : Moment} {programs : List (List Stmt)}

theorem Later.refl (own : Option ScopeId) (t : Moment) : Later own t t :=
  ⟨List.suffix_rfl, rfl, rfl, rfl, Nat.le_refl _, fun _ _ => rfl, fun _ _ h => h, fun _ _ _ _ h => h,
    fun _ _ _ _ h => h⟩

theorem Later.trans (h : Later own t t') (h' : Later own t' t'') : Later own t t'' where
  log := h.log.trans h'.log
  current := h'.current.trans h.current
  globals := h'.globals.trans h.globals
  depths := h'.depths.trans h.depths
  size := Nat.le_trans h.size h'.size
  enclosing s hs := (h'.enclosing s (Nat.lt_of_lt_of_le hs h.size)).trans (h.enclosing s hs)
  bound s name hb := h'.bound s name (h.bound s name hb)
  names s hs ho name hb := h.names s hs ho name (h'.names s (Nat.lt_of_lt_of_le hs h.size) ho name hb)
  kept s name value hr hb := h'.kept s name value hr (h.kept s name value hr hb)

theorem Later.widen (h : Later none t t') (own : Option ScopeId) : Later own t t' :=
  { h with names := fun s hs _ name hb => h.names s hs (by simp) name hb }

/-- Changes of a scope that was not there yet do not count. -/
theorem Later.of_new {s : ScopeId} (h : Later none t t') (h' : Later (some s) t' t'')
    (hs : t.store.scopes.size ≤ s) : Later none t t'' where
  log := h.log.trans h'.log
  current := h'.current.trans h.current
  globals := h'.globals.trans h.globals
  depths := h'.depths.trans h.depths
  size := Nat.le_trans h.size h'.size
  enclosing s hs := (h'.enclosing s (Nat.lt_of_lt_of_le hs h.size)).trans (h.enclosing s hs)
  bound s name hb := h'.bound s name (h.bound s name hb)
  names other ho _ name hb := by
    have hne : some other ≠ some s := by
      intro he
      cases he
      exact absurd ho (Nat.not_lt.2 hs)
    exact h.names other ho (by simp) name (h'.names other (Nat.lt_of_lt_of_le ho h.size) hne name hb)
  kept s name value hr hb := h'.kept s name value hr (h.kept s name value hr hb)

theorem Encloses.bound {layer : Layer} {outer : List Layer} {s : ScopeId} {name : String}
    (he : Encloses t (layer :: outer) s) (hn : layer.frame.get? name = some true) : t.Bound s name := by
  cases he with
  | scope _ _ _ _ hb _ => exact hb name hn

theorem Extends.suffix {log log' : History} {s : ScopeId} {name : Name} {target : Reference}
    {methods : List FunctionDecl} {class_ : ClassObject} (he : Extends log s name target methods class_)
    (h : log <:+ log') : Extends log' s name target methods class_ := by
  obtain ⟨later, m, earlier, rfl, hr⟩ := he
  obtain ⟨new, rfl⟩ := h
  exact ⟨new ++ later, m, earlier, (List.append_assoc ..).symm, hr⟩

theorem Holds.later {s : ScopeId} {site : Site} (hh : Holds t s site) (h : Later own t t') :
    Holds t' s site := by
  cases site with
  | receiver f =>
    obtain ⟨method, id, class_, hm, hf, hs, hb⟩ := hh
    have hs' := (h.enclosing _ (Store.lt_size_of_enclosing hs)).trans hs
    exact ⟨method, id, class_, h.log.mem hm, hf, hs', h.kept _ _ _ (.inl rfl) hb⟩
  | superclass name superclass methods =>
    obtain ⟨target, class_, hs, he, hb⟩ := hh
    exact ⟨target, class_, hs, he.suffix h.log, h.kept _ _ _ (.inr rfl) hb⟩
  | _ => trivial

theorem Encloses.later {layers : List Layer} {s : ScopeId} (he : Encloses t layers s)
    (h : Later own t t') : Encloses t' layers s := by
  induction he with
  | globals =>
    rw [← h.globals]
    exact .globals
  | scope hne hl hh hs hb _ ih =>
    apply Encloses.scope (h.globals ▸ hne) (h.log.mem hl) (hh.later h) ?_
      (fun name hn => h.bound _ _ (hb name hn)) ih
    rw [h.enclosing _ (Store.lt_size_of_enclosing hs), hs]

theorem Encloses.lt_size {layers : List Layer} {s : ScopeId} (he : Encloses t layers s)
    (hg : t.machine.globals < t.store.scopes.size) : s < t.store.scopes.size := by
  cases he with
  | globals => exact hg
  | scope _ _ _ hs _ _ => exact Store.lt_size_of_enclosing hs

theorem GoodClosure.later {f : Closure} (hf : GoodClosure programs t f) (h : Later own t t') :
    GoodClosure programs t' f := by
  obtain ⟨program, hp, c, hs, he, hi⟩ := hf
  exact ⟨program, hp, c, hs, he.later h, hi⟩

theorem GoodMethod.later {f : Closure} (hf : GoodMethod programs t f) (h : Later own t t') :
    GoodMethod programs t' f := by
  obtain ⟨program, hp, c, outer, hs, hl, he⟩ := hf
  exact ⟨program, hp, c, outer, hs, hl, he.later h⟩

theorem GoodClass.later {c : ClassObject} (hc : GoodClass programs t c) (h : Later own t t') :
    GoodClass programs t' c := fun name f hf => (hc name f hf).imp_left fun hm => hm.later h

theorem GoodValue.later {value : Value} (hv : GoodValue programs t value) (h : Later own t t') :
    GoodValue programs t' value := by
  cases value with
  | function id f => exact GoodClosure.later hv h
  | classObject c => exact GoodClass.later hv h
  | instanceOf id c => exact GoodClass.later hv h
  | _ => trivial

/-- Running something that leaves the current scope alone does not change the place. -/
theorem Current.later {c : Context} (hc : Current c t) (h : Later none t t')
    (hg : t.machine.globals < t.store.scopes.size) : Current c t' := by
  constructor
  · rw [h.current]
    exact hc.scopes.later h
  · intro layer hl name
    rw [h.current, ← hc.exact layer hl name]
    have hlt := hc.scopes.lt_size hg
    exact ⟨h.names _ hlt (by simp) name, h.bound _ name⟩

end Later

end LoxLang
