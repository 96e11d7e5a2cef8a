import LoxLang.Proofs.Scoping.Activation
import LoxLang.Proofs.Value

/-!
# Rules for traced effects

What every step of the evaluator keeps: started at a good moment it ends at a good one that is later, however
it ends, and it does not fail because of `this` or `super`. One rule for each way in which a step changes the
machine, and one that puts steps together.
-/

namespace LoxLang

section
variable {programs : List (List Stmt)} {own : Option ScopeId} {now : Moment}

theorem Value.CodeFree.good {value : Value} (h : value.CodeFree) : GoodValue programs now value := by
  cases value <;> trivial

/-! ## How steps change a moment -/

/-- Something is recorded that opens no scope. -/
theorem Good.record (hg : Good programs now) {event : Event} (ho : ∀ s site, event ≠ .opened s site)
    (hb : ∀ s method receiver, event = .bound s method receiver →
      .opened s (.receiver method.declaration) ∈ now.log ∧ ∀ other value, .bound s other value ∉ now.log)
    (hs : Sound programs (event :: now.log)) :
    Good programs ⟨event :: now.log, now.machine⟩ ∧ Later none now ⟨event :: now.log, now.machine⟩ := by
  have hl : Later none now ⟨event :: now.log, now.machine⟩ :=
    { Later.refl none now with log := List.suffix_cons _ _ }
  have hm : ∀ s site, Event.opened s site ∈ event :: now.log → Event.opened s site ∈ now.log :=
    fun s site => List.mem_of_ne_of_mem (ho s site).symm
  refine ⟨{ hg with
    recorded := ?_, unique := ?_, bound := ?_, once := ?_, bindings := ?_, items := ?_, fields := ?_
    sound := hs }, hl⟩
  · exact fun s site h => hg.recorded s site (hm s site h)
  · exact fun s site site' h h' => hg.unique s site site' (hm s site h) (hm s site' h')
  · intro s method receiver h
    rcases List.mem_cons.1 h with h | h
    · exact List.mem_cons_of_mem _ (hb _ _ _ h.symm).1
    · exact List.mem_cons_of_mem _ (hg.bound _ _ _ h)
  · intro s method method' receiver receiver' h h'
    rcases List.mem_cons.1 h with h | h <;> rcases List.mem_cons.1 h' with h' | h'
    · cases h.trans h'.symm
      exact ⟨rfl, rfl⟩
    · exact absurd h' ((hb _ _ _ h.symm).2 _ _)
    · exact absurd h ((hb _ _ _ h'.symm).2 _ _)
    · exact hg.once _ _ _ _ _ h h'
  · exact fun s name value h => (hg.bindings s name value h).later hl
  · exact fun list value h => (hg.items list value h).later hl
  · exact fun object name value h => (hg.fields object name value h).later hl

theorem Good.use (hg : Good programs now) {node : Expr} (hj : Justified programs now node) :
    Good programs ⟨.used node now.machine :: now.log, now.machine⟩ ∧
      Later none now ⟨.used node now.machine :: now.log, now.machine⟩ :=
  hg.record (by simp) (by simp) ⟨hj, hg.sound⟩

/-- The scopes stay as they are. -/
theorem Good.aside (hg : Good programs now) {m : Machine}
    (hs : m.store.scopes = now.machine.store.scopes) (hc : m.current = now.machine.current)
    (ho : m.globals = now.machine.globals) (hd : m.depths = now.machine.depths)
    (hi : ∀ list, ∀ value ∈ m.store.items list, GoodValue programs now value)
    (hf : ∀ object name value, m.store.field? object name = some value → GoodValue programs now value) :
    Good programs ⟨now.log, m⟩ ∧ Later none now ⟨now.log, m⟩ := by
  have he : ∀ s, m.store.enclosing? s = now.store.enclosing? s := by
    intro s
    unfold Store.enclosing?
    rw [hs]
  have hb : ∀ s name, m.store.binding? s name = now.store.binding? s name := by
    intro s name
    unfold Store.binding?
    rw [hs]
  have hl : Later none now ⟨now.log, m⟩ := by
    refine ⟨List.suffix_rfl, hc, ho, hd, ?_, fun s _ => he s, ?_, ?_, ?_⟩
    · exact Nat.le_of_eq (congrArg Array.size hs.symm)
    · intro s name h
      unfold Moment.Bound
      rw [hb]
      exact h
    · intro s _ _ name h
      unfold Moment.Bound at h
      rwa [hb] at h
    · exact fun s name value _ h => (hb s name).trans h
  refine ⟨?_, hl⟩
  constructor
  · constructor
    · exact fun s around h => hg.inward s around (he s ▸ h)
    · rw [ho]
      exact (he _).trans hg.outermost
    · rw [ho]
      exact Nat.lt_of_lt_of_le hg.present hl.size
    · exact fun s site h => Nat.lt_of_lt_of_le (hg.recorded s site h) hl.size
    · exact hg.unique
    · exact hg.bound
    · exact hg.once
  · intro program hp
    refine { hg.prepared program hp with depths := ?_ }
    rw [hd]
    exact (hg.prepared program hp).depths
  · exact fun s name value h => (hg.bindings s name value (hb s name ▸ h)).later hl
  · exact fun list value h => (hi list value h).later hl
  · exact fun object name value h => (hf object name value h).later hl
  · exact hg.sound

/-- A name is bound: again, or in the scope that may be changed. It is neither `this` nor `super`. -/
theorem Good.define (hg : Good programs now) {scope : ScopeId} {name : String} {value : Value}
    (hn : ¬ Reserved name) (hs : scope < now.store.scopes.size) (ho : own = some scope ∨ now.Bound scope name)
    (hv : Later own now ⟨now.log, { now.machine with store := now.store.define scope name value }⟩ →
      GoodValue programs ⟨now.log, { now.machine with store := now.store.define scope name value }⟩
        value) :
    Good programs ⟨now.log, { now.machine with store := now.store.define scope name value }⟩ ∧
      Later own now ⟨now.log, { now.machine with store := now.store.define scope name value }⟩ := by
  have hl : Later own now
      ⟨now.log, { now.machine with store := now.store.define scope name value }⟩ := by
    refine ⟨List.suffix_rfl, rfl, rfl, rfl, ?_, fun s _ => Store.define_enclosing .., ?_, ?_, ?_⟩
    · exact Nat.le_of_eq (Store.define_size ..).symm
    · intro s other hb
      unfold Moment.Bound Moment.store
      by_cases h : s = scope
      · subst h
        rw [Store.define_binding_self hs]
        split
        · rfl
        · exact hb
      · rw [Store.define_binding_ne h]
        exact hb
    · intro s _ hne other hb
      unfold Moment.Bound Moment.store at hb
      rcases ho with ho | ho
      · have h : s ≠ scope := fun h => hne (h ▸ ho.symm)
        rwa [Store.define_binding_ne h] at hb
      · rwa [Store.define_bound ho] at hb
    · intro s other found hr hb
      have hne : name ≠ other := fun h => hn (h ▸ hr)
      by_cases h : s = scope
      · subst h
        exact (Store.define_binding_self hs ..).trans ((if_neg hne).trans hb)
      · exact (Store.define_binding_ne h ..).trans hb
  refine ⟨?_, hl⟩
  constructor
  · constructor
    · intro s around h
      exact hg.inward s around (Store.define_enclosing .. ▸ h)
    · exact (Store.define_enclosing ..).trans hg.outermost
    · exact Nat.lt_of_lt_of_le hg.present hl.size
    · exact fun s site h => Nat.lt_of_lt_of_le (hg.recorded s site h) hl.size
    · exact hg.unique
    · exact hg.bound
    · exact hg.once
  · exact fun program hp => { hg.prepared program hp with }
  · intro s other value' h
    rcases Store.define_binding_cases h with rfl | h
    · exact hv hl
    · exact (hg.bindings s other value' h).later hl
  · exact fun list value h => (hg.items list value h).later hl
  · exact fun object name value h => (hg.fields object name value h).later hl
  · exact hg.sound

/-- The moment after a scope was opened. -/
def Moment.opening (now : Moment) (site : Site) (bindings : Table Value) (around : ScopeId) : Moment where
  log := .opened now.store.scopes.size site :: now.log
  machine := { now.machine with store := (now.store.newScope bindings (some around)).2 }

/-- A scope is opened. -/
theorem Good.opening (hg : Good programs now) {site : Site} {bindings : Table Value} {around : ScopeId}
    (ha : around < now.store.scopes.size)
    (hb : ∀ name value, bindings.get? name = some value → GoodValue programs now value) :
    Good programs (now.opening site bindings around) ∧
      Later none now (now.opening site bindings around) := by
  have hl : Later none now (now.opening site bindings around) := by
    have hb : ∀ s < now.store.scopes.size, ∀ name,
        (now.opening site bindings around).store.binding? s name = now.store.binding? s name :=
      fun s hs name => (Store.newScope_binding ..).trans (if_neg (Nat.ne_of_lt hs))
    refine ⟨List.suffix_cons _ _, rfl, rfl, rfl, ?_, ?_, ?_, ?_, ?_⟩
    · exact Nat.le_trans (Nat.le_succ _) (Nat.le_of_eq (Store.newScope_size ..).symm)
    · intro s hs
      exact (Store.newScope_enclosing ..).trans (if_neg (Nat.ne_of_lt hs))
    · intro s name h
      unfold Moment.Bound
      rw [hb s (Store.lt_size_of_bound h)]
      exact h
    · intro s hs _ name h
      unfold Moment.Bound at h
      rwa [hb s hs] at h
    · exact fun s name value _ h => (hb s (Store.lt_size_of_binding h) name).trans h
  have hsize : (now.opening site bindings around).store.scopes.size = now.store.scopes.size + 1 :=
    Store.newScope_size ..
  refine ⟨?_, hl⟩
  constructor
  · constructor
    · intro s inner h
      have h' := (Store.newScope_enclosing ..).symm.trans h
      split at h'
      · rename_i hs
        cases h'
        exact hs ▸ ha
      · exact hg.inward s inner h'
    · exact (Store.newScope_enclosing ..).trans ((if_neg (Nat.ne_of_lt hg.present)).trans hg.outermost)
    · exact Nat.lt_of_lt_of_le hg.present hl.size
    · intro s site' h
      rw [hsize]
      rcases List.mem_cons.1 h with h | h
      · cases h
        exact Nat.lt_succ_self _
      · exact Nat.lt_succ_of_lt (hg.recorded s site' h)
    · intro s first second h h'
      rcases List.mem_cons.1 h with h | h <;> rcases List.mem_cons.1 h' with h' | h'
      · cases h
        cases h'
        rfl
      · cases h
        exact absurd (hg.recorded _ _ h') (Nat.lt_irrefl _)
      · cases h'
        exact absurd (hg.recorded _ _ h) (Nat.lt_irrefl _)
      · exact hg.unique s first second h h'
    · intro s method receiver h
      exact List.mem_cons_of_mem _ (hg.bound _ _ _ (List.mem_of_ne_of_mem (by simp) h))
    · intro s method method' receiver receiver' h h'
      exact hg.once _ _ _ _ _ (List.mem_of_ne_of_mem (by simp) h) (List.mem_of_ne_of_mem (by simp) h')
  · exact fun program hp => { hg.prepared program hp with }
  · intro s name value h
    have h' := (Store.newScope_binding ..).symm.trans h
    split at h'
    · exact (hb name value h').later hl
    · exact (hg.bindings s name value h').later hl
  · exact fun list value h => (hg.items list value h).later hl
  · exact fun object name value h => (hg.fields object name value h).later hl
  · exact hg.sound

theorem Moment.opening_binding (now : Moment) (site : Site) (bindings : Table Value) (around : ScopeId)
    (name : String) : (now.opening site bindings around).store.binding? now.store.scopes.size name =
      bindings.get? name := (Store.newScope_binding ..).trans (if_pos rfl)

/-- A scope that was opened for the innermost layer, inside the scopes of the others. -/
theorem Encloses.opening (hg : Good programs now) {layer : Layer} {outer : List Layer}
    {bindings : Table Value} {around : ScopeId} (ho : Encloses now outer around)
    (hl : Later none now (now.opening layer.site bindings around))
    (hh : Holds (now.opening layer.site bindings around) now.store.scopes.size layer.site)
    (hf : ∀ name, layer.frame.get? name = some true → (bindings.get? name).isSome) :
    Encloses (now.opening layer.site bindings around) (layer :: outer) now.store.scopes.size := by
  refine .scope ?_ List.mem_cons_self hh ?_ ?_ (ho.later hl)
  · exact (Nat.ne_of_lt hg.present).symm
  · exact (Store.newScope_enclosing ..).trans (if_pos rfl)
  · intro name hn
    unfold Moment.Bound
    rw [Moment.opening_binding]
    exact hf name hn

/-- The moment after a method was bound to an instance, in a scope for `this`. -/
def Moment.binding (now : Moment) (method : Closure) (receiver : Value) : Moment where
  log := .bound now.store.scopes.size method receiver ::
    (now.opening (.receiver method.declaration) [("this", receiver)] method.scope).log
  machine := (now.opening (.receiver method.declaration) [("this", receiver)] method.scope).machine

/-- A table with one name. -/
theorem Table.get?_single {α : Type} {name key : String} {value found : α}
    (h : Table.get? key [(name, value)] = some found) : key = name ∧ found = value := by
  unfold Table.get? at h
  split at h
  · rename_i hkey
    cases h
    exact ⟨hkey.symm, rfl⟩
  · cases h

theorem Good.binding (hg : Good programs now) {method : Closure} {receiver : Value}
    (hs : method.scope < now.store.scopes.size) (hr : GoodValue programs now receiver) :
    Good programs (now.binding method receiver) ∧ Later none now (now.binding method receiver) := by
  have hvalue : ∀ name value, Table.get? name [("this", receiver)] = some value →
      GoodValue programs now value := by
    intro name value h
    cases (Table.get?_single h).2
    exact hr
  obtain ⟨hg', hl⟩ := @Good.opening programs now hg (.receiver method.declaration) _ method.scope hs hvalue
  have hnew : ∀ other value, Event.bound now.store.scopes.size other value ∉
      (now.opening (.receiver method.declaration) [("this", receiver)] method.scope).log := by
    intro other value h
    have hold := List.mem_of_ne_of_mem (by simp) h
    exact Nat.lt_irrefl _ (hg.recorded _ _ (hg.bound _ _ _ hold))
  have hrecord := @Good.record programs _ hg' (.bound now.store.scopes.size method receiver) (by simp)
    (fun s other value h => by cases h; exact ⟨List.mem_cons_self, hnew⟩) hg'.sound
  exact ⟨hrecord.1, hl.trans hrecord.2⟩

theorem Encloses.binding (hg : Good programs now) {method : Closure} {outer : List Layer}
    {id : InstanceId} {class_ : ClassObject} (hm : Encloses now outer method.scope)
    (hl : Later none now (now.binding method (.instanceOf id class_))) :
    Encloses (now.binding method (.instanceOf id class_))
      (⟨.receiver method.declaration, [("this", true)]⟩ :: outer) now.store.scopes.size := by
  have hbinding := now.opening_binding (.receiver method.declaration)
    [("this", .instanceOf id class_)] method.scope
  have henclosing : (now.binding method (.instanceOf id class_)).store.enclosing? now.store.scopes.size =
      some method.scope := (Store.newScope_enclosing ..).trans (if_pos rfl)
  refine .scope ?_ ?_ ?_ henclosing ?_ (hm.later hl)
  · exact (Nat.ne_of_lt hg.present).symm
  · exact List.mem_cons_of_mem _ List.mem_cons_self
  · exact ⟨method, id, class_, List.mem_cons_self, rfl, henclosing, hbinding "this"⟩
  · intro name hn
    cases (Table.get?_single hn).1
    exact congrArg Option.isSome (hbinding "this")

end

/-! ## Steps put together -/

namespace Traced

/-- The moment at which a traced effect ends. -/
def after {α : Type} (t : Traced Event α) (now : Moment) : Moment :=
  ⟨(t.onto now.log now.machine).2, (t.onto now.log now.machine).1.machine⟩

end Traced

/-- Started now, the traced effect ends at a good moment, however it ends, and a value that it yields is as
`post` says. If it fails, then not because of `this` or `super`. -/
structure Ends (programs : List (List Stmt)) {α : Type} (own : Option ScopeId) (t : Traced Event α)
    (now : Moment) (post : α → Moment → Prop) : Prop where
  good : Good programs (t.after now)
  later : Later own now (t.after now)
  yields : ∀ a m, (t.onto now.log now.machine).1 = .done a m → post a (t.after now)
  fails : ∀ e m, (t.onto now.log now.machine).1 = .failed e m → e.fault.Ordinary

section
variable {programs : List (List Stmt)} {α β : Type} {own : Option ScopeId} {now : Moment}
variable {t : Traced Event α} {post : α → Moment → Prop}

theorem Ends.imp {post' : α → Moment → Prop} (h : Ends programs own t now post)
    (hp : ∀ a, Good programs (t.after now) → Later own now (t.after now) → post a (t.after now) →
      post' a (t.after now)) : Ends programs own t now post' :=
  ⟨h.good, h.later, fun a m hr => hp a h.good h.later (h.yields a m hr), h.fails⟩

theorem Ends.widen (h : Ends programs none t now post) (own : Option ScopeId) :
    Ends programs own t now post := ⟨h.good, h.later.widen own, h.yields, h.fails⟩

/-- What a traced effect does is what another one does at a later moment. -/
theorem Ends.of_eq {now' : Moment} {t' : Traced Event α}
    (he : t.onto now.log now.machine = t'.onto now'.log now'.machine) (hl : Later own now now')
    (h : Ends programs own t' now' post) : Ends programs own t now post := by
  have ha : t.after now = t'.after now' := by
    unfold Traced.after
    rw [he]
  constructor
  · rw [ha]
    exact h.good
  · rw [ha]
    exact hl.trans h.later
  · intro a m hr
    rw [ha]
    rw [he] at hr
    exact h.yields a m hr
  · rw [he]
    exact h.fails

theorem Ends.of_done {a : α} {m : Machine} {log : History}
    (he : t.onto now.log now.machine = (.done a m, log)) (hg : Good programs ⟨log, m⟩)
    (hl : Later own now ⟨log, m⟩) (hp : post a ⟨log, m⟩) : Ends programs own t now post := by
  have ha : t.after now = ⟨log, m⟩ := by
    unfold Traced.after
    rw [he]
    rfl
  refine ⟨ha ▸ hg, ha ▸ hl, fun b m' hr => ?_, fun e m' hr => ?_⟩
  · rw [he] at hr
    cases hr
    exact ha ▸ hp
  · rw [he] at hr
    cases hr

theorem Ends.of_stopped {outcome : Outcome α} {log : History}
    (he : t.onto now.log now.machine = (outcome, log)) (ho : ∀ a m, outcome ≠ .done a m)
    (hf : ∀ e m, outcome = .failed e m → e.fault.Ordinary)
    (hg : Good programs ⟨log, outcome.machine⟩) (hl : Later own now ⟨log, outcome.machine⟩) :
    Ends programs own t now post := by
  have ha : t.after now = ⟨log, outcome.machine⟩ := by
    unfold Traced.after
    rw [he]
  refine ⟨ha ▸ hg, ha ▸ hl, fun b m' hr => ?_, fun e m' hr => ?_⟩
  · rw [he] at hr
    exact absurd hr (ho b m')
  · rw [he] at hr
    exact hf e m' hr

theorem Ends.bind {next : α → Traced Event β} {post' : β → Moment → Prop}
    (h : Ends programs own t now post)
    (hn : ∀ a now', Good programs now' → Later own now now' → post a now' →
      Ends programs own (next a) now' post') :
    Ends programs own (t >>= next) now post' := by
  obtain ⟨hg, hl, hy, hf⟩ := h
  have hb := t.onto_bind next now.log now.machine
  rcases hr : t.onto now.log now.machine with ⟨⟨a, m⟩ | ⟨e, m⟩ | ⟨m⟩, log⟩
  all_goals
    have ha : t.after now = ⟨log, m⟩ := by
      unfold Traced.after
      rw [hr]
      rfl
    rw [ha] at hg hl hy
    rw [hr] at hb hy hf
  · exact .of_eq hb hl (hn a _ hg hl (hy a m rfl))
  · refine .of_stopped hb (by simp) (fun e' m' he => ?_) hg hl
    cases he
    exact hf e m rfl
  · exact .of_stopped hb (by simp) (by simp) hg hl

theorem Ends.yield {a : α} (hg : Good programs now) (hp : post a now) :
    Ends programs own (pure a) now post := .of_done rfl hg (.refl own now) hp

theorem Ends.exhausted (hg : Good programs now) : Ends programs own (.quiet .exhausted) now post := by
  have he : (Traced.quiet .exhausted : Traced Event α).onto now.log now.machine =
      (.outOfFuel now.machine, now.log) := rfl
  exact .of_stopped he (by simp) (by simp) hg (.refl own now)

theorem Ends.fail {line : Nat} {fault : Fault} (hg : Good programs now) (hf : fault.Ordinary) :
    Ends programs own (.quiet (.fail line fault)) now post := by
  have he : (Traced.quiet (.fail line fault) : Traced Event α).onto now.log now.machine =
      (.failed ⟨fault, line⟩ now.machine, now.log) := rfl
  refine .of_stopped he (by simp) (fun e m hfailed => ?_) hg (.refl own now)
  cases hfailed
  exact hf

theorem Ends.read {find : Machine → α} (hg : Good programs now) (hp : post (find now.machine) now) :
    Ends programs own (.quiet (.read find)) now post := .of_done rfl hg (.refl own now) hp

theorem Ends.ofExcept {line : Nat} {result : Except Fault α} (hg : Good programs now)
    (hp : ∀ a, result = .ok a → post a now) (hf : ∀ fault, result = .error fault → fault.Ordinary) :
    Ends programs own (.quiet (.ofExcept line result)) now post := by
  cases result with
  | ok a => exact .of_done rfl hg (.refl own now) (hp a rfl)
  | error fault => exact .fail hg (hf fault rfl)

theorem Ends.ofOption {line : Nat} {fault : Fault} {found : Option α} (hg : Good programs now)
    (hp : ∀ a, found = some a → post a now) (hf : found = none → fault.Ordinary) :
    Ends programs own (.quiet (.ofOption line fault found)) now post := by
  cases found with
  | some a => exact .of_done rfl hg (.refl own now) (hp a rfl)
  | none => exact .fail hg (hf rfl)

theorem Ends.depthOf {node : Expr} {id : NodeId} (hg : Good programs now)
    (hj : Justified programs now node) :
    Ends programs own (tracing.depthOf node id) now fun _ now' => now'.machine = now.machine :=
  .of_done rfl (hg.use hj).1 ((hg.use hj).2.widen own) rfl

/-- A scope is opened for a layer. -/
theorem Ends.opened (layer : Layer) {outer : List Layer} {bindings : Table Value} {around : ScopeId}
    (hg : Good programs now) (ho : Encloses now outer around)
    (hb : ∀ name value, bindings.get? name = some value → GoodValue programs now value)
    (hh : Holds (now.opening layer.site bindings around) now.store.scopes.size layer.site)
    (hf : ∀ name, layer.frame.get? name = some true → (bindings.get? name).isSome) :
    Ends programs none (.openScope layer.site bindings (some around)) now fun scope now' =>
      Encloses now' (layer :: outer) scope := by
  obtain ⟨hg', hl⟩ := @Good.opening programs now hg layer.site bindings around (ho.lt_size hg.present) hb
  exact .of_done rfl hg' hl (.opening hg ho hl hh hf)

/-- The new scope of a layer binds the names that are ready in the layer and no others. -/
theorem Good.opened (layer : Layer) {outer : List Layer} {bindings : Table Value} {around : ScopeId}
    (hg : Good programs now) (ho : Encloses now outer around)
    (hb : ∀ name value, bindings.get? name = some value → GoodValue programs now value)
    (hh : Holds (now.opening layer.site bindings around) now.store.scopes.size layer.site)
    (hf : ∀ name, (bindings.get? name).isSome ↔ layer.frame.get? name = some true) :
    Good programs (now.opening layer.site bindings around) ∧
      Later none now (now.opening layer.site bindings around) ∧
      Encloses (now.opening layer.site bindings around) (layer :: outer) now.store.scopes.size ∧
      ∀ name, (now.opening layer.site bindings around).Bound now.store.scopes.size name ↔
        layer.frame.get? name = some true := by
  obtain ⟨hg', hl⟩ := @Good.opening programs now hg layer.site bindings around (ho.lt_size hg.present) hb
  refine ⟨hg', hl, Encloses.opening hg ho hl hh fun name h => (hf name).2 h, ?_⟩
  intro name
  rw [← hf name]
  unfold Moment.Bound
  rw [Moment.opening_binding]

/-- A scope is opened for a layer and what follows may change it. -/
theorem Ends.openScope (layer : Layer) {outer : List Layer} {bindings : Table Value}
    {around : ScopeId} {next : ScopeId → Traced Event β} {post' : β → Moment → Prop} (hg : Good programs now)
    (ho : Encloses now outer around)
    (hb : ∀ name value, bindings.get? name = some value → GoodValue programs now value)
    (hh : Holds (now.opening layer.site bindings around) now.store.scopes.size layer.site)
    (hf : ∀ name, (bindings.get? name).isSome ↔ layer.frame.get? name = some true)
    (hn : ∀ scope now', Good programs now' → Later none now now' →
      Encloses now' (layer :: outer) scope →
      (∀ name, now'.Bound scope name ↔ layer.frame.get? name = some true) →
      Ends programs (some scope) (next scope) now' post') :
    Ends programs none (.openScope layer.site bindings (some around) >>= next) now post' := by
  obtain ⟨hg', hl, he, hx⟩ := Good.opened layer hg ho hb hh hf
  have h := hn _ _ hg' hl he hx
  have hr : (.openScope layer.site bindings (some around) >>= next : Traced Event β).onto now.log now.machine =
      (next now.store.scopes.size).onto (now.opening layer.site bindings around).log
        (now.opening layer.site bindings around).machine := Traced.bind_done rfl
  have hafter : (.openScope layer.site bindings (some around) >>= next : Traced Event β).after now =
      (next now.store.scopes.size).after (now.opening layer.site bindings around) := by
    unfold Traced.after
    rw [hr]
  constructor
  · rw [hafter]
    exact h.good
  · rw [hafter]
    exact hl.of_new h.later (Nat.le_refl _)
  · intro b m hb'
    rw [hafter]
    rw [hr] at hb'
    exact h.yields b m hb'
  · rw [hr]
    exact h.fails

/-- The same moment in another scope. -/
def Moment.at (now : Moment) (scope : ScopeId) : Moment :=
  { now with machine := { now.machine with current := scope } }

theorem Holds.at {s : ScopeId} {site : Site} (h : Holds now s site) (scope : ScopeId) :
    Holds (now.at scope) s site := by
  cases site <;> exact h

theorem Encloses.at {layers : List Layer} {s : ScopeId} (h : Encloses now layers s) (scope : ScopeId) :
    Encloses (now.at scope) layers s := by
  induction h with
  | globals => exact .globals
  | scope hne hl hh hs hb _ ih => exact .scope hne hl (hh.at scope) hs hb ih

theorem GoodValue.at {value : Value} (h : GoodValue programs now value) (scope : ScopeId) :
    GoodValue programs (now.at scope) value := by
  have hm : ∀ f, GoodMethod programs now f → GoodMethod programs (now.at scope) f := by
    rintro f ⟨program, hp, c, outer, hs, hl, he⟩
    exact ⟨program, hp, c, outer, hs, hl, he.at scope⟩
  cases value with
  | function id f =>
    obtain ⟨program, hp, c, hs, he, hi⟩ := h
    exact ⟨program, hp, c, hs, he.at scope, hi⟩
  | classObject c => exact fun name f hf => (h name f hf).imp_left (hm f)
  | instanceOf id c => exact fun name f hf => (h name f hf).imp_left (hm f)
  | _ => trivial

theorem Good.at (h : Good programs now) (scope : ScopeId) : Good programs (now.at scope) where
  inward := h.inward
  outermost := h.outermost
  present := h.present
  recorded := h.recorded
  unique := h.unique
  bound := h.bound
  once := h.once
  prepared program hp := { h.prepared program hp with }
  bindings s name value hv := (h.bindings s name value hv).at scope
  items list value hv := (h.items list value hv).at scope
  fields object name value hv := (h.fields object name value hv).at scope
  sound := h.sound

theorem Ends.within {scope : ScopeId}
    (h : Ends programs own t (now.at scope) fun a now' => post a (now'.at now.machine.current)) :
    Ends programs own (.within scope t) now post := by
  obtain ⟨hg, hl, hy, hf⟩ := h
  have hw := t.onto_within scope now.log now.machine
  rcases hr : t.onto now.log { now.machine with current := scope } with ⟨⟨a, m⟩ | ⟨e, m⟩ | ⟨m⟩, log⟩
  all_goals
    have ha : t.after (now.at scope) = ⟨log, m⟩ := by
      unfold Traced.after Moment.at
      rw [hr]
      rfl
    rw [ha] at hg hl hy
    rw [hr] at hw
    unfold Moment.at at hf
    rw [hr] at hf
    have hl' : Later own now (Moment.at ⟨log, m⟩ now.machine.current) := { hl with current := rfl }
  · refine .of_done hw (hg.at now.machine.current) hl' (hy a m ?_)
    unfold Moment.at
    rw [hr]
  · refine .of_stopped hw (by simp) (fun e' m' he => ?_) (hg.at now.machine.current) hl'
    cases he
    exact hf e m rfl
  · exact .of_stopped hw (by simp) (by simp) (hg.at now.machine.current) hl'

end

end LoxLang
