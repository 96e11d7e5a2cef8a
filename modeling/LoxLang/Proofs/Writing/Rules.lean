import LoxLang.Proofs.Scoping.Account
import LoxLang.Proofs.Writing

/-!
# What writes account for

The writes of an effect are all that happens to the bindings of scopes: made again one after the other, they turn
the bindings before the effect into those behind it. And in a scope other than the globals a definition finds
its name unbound. The context of a declaration knows all names that its scope binds, and resolution has found the
name to be new among them. That a declaration is run again, in a loop or by another call, does not matter, since it
is then run in another scope.
-/

namespace LoxLang

/-! ## Making writes again -/

section Replay
variable {globals scope : ScopeId} {name : String} {bindings : Bindings} {ws : List Write}

theorem replay_append (ws ws' : List Write) (bindings : Bindings) :
    replay (ws ++ ws') bindings = replay ws' (replay ws bindings) := List.foldl_append

theorem Write.apply_bound {w : Write} (h : (bindings scope name).isSome) :
    (w.apply bindings scope name).isSome := by
  unfold Write.apply
  split
  · rfl
  · exact h

theorem Write.defines_iff {w : Write} :
    w.defines scope name = true ↔ w.kind = .definition ∧ w.scope = scope ∧ w.name = name :=
  decide_eq_true_iff

/-- Made one after the other, definitions in scopes other than the globals find their names unbound. -/
def DefinesOnce (globals : ScopeId) : List Write → Bindings → Prop
  | [], _ => True
  | w :: rest, bindings =>
    (w.kind = .definition → w.scope ≠ globals → bindings w.scope w.name = none) ∧
      DefinesOnce globals rest (w.apply bindings)

theorem definesOnce_append {ws' : List Write} : DefinesOnce globals (ws ++ ws') bindings ↔
    DefinesOnce globals ws bindings ∧ DefinesOnce globals ws' (replay ws bindings) := by
  induction ws generalizing bindings with
  | nil => exact ⟨fun h => ⟨trivial, h⟩, And.right⟩
  | cons w rest ih =>
    change _ ∧ DefinesOnce globals (rest ++ ws') (w.apply bindings) ↔ (_ ∧ _) ∧ _
    rw [ih, and_assoc]
    rfl

namespace DefinesOnce

/-- A name that is bound is not defined again. -/
theorem none_of_bound (h : DefinesOnce globals ws bindings) (hs : scope ≠ globals)
    (hb : (bindings scope name).isSome) : ws.countP (Write.defines scope name) = 0 := by
  induction ws generalizing bindings with
  | nil => rfl
  | cons w rest ih =>
    obtain ⟨hw, hrest⟩ := h
    have hnot : ¬ w.defines scope name = true := by
      rintro hd
      obtain ⟨hk, rfl, rfl⟩ := Write.defines_iff.1 hd
      rw [hw hk hs] at hb
      cases hb
    rw [List.countP_cons_of_neg hnot]
    exact ih hrest (Write.apply_bound hb)

/-- No name is defined twice in one scope. -/
theorem countP_le_one (h : DefinesOnce globals ws bindings) (hs : scope ≠ globals) :
    ws.countP (Write.defines scope name) ≤ 1 := by
  induction ws generalizing bindings with
  | nil => exact Nat.zero_le 1
  | cons w rest ih =>
    obtain ⟨-, hrest⟩ := h
    by_cases hd : w.defines scope name = true
    · have hbound : (w.apply bindings scope name).isSome := by
        obtain ⟨-, rfl, rfl⟩ := Write.defines_iff.1 hd
        exact congrArg Option.isSome (if_pos ⟨rfl, rfl⟩)
      have hrest := hrest.none_of_bound hs hbound
      exact Nat.le_of_eq ((List.countP_cons_of_pos hd).trans (congrArg Nat.succ hrest))
    · rw [List.countP_cons_of_neg hd]
      exact ih hrest

/-- What is written to a name that is bound already is an assignment. -/
theorem assigned (h : DefinesOnce globals ws bindings) {front back : List Write} {w : Write}
    (he : ws = front ++ w :: back) (hs : w.scope ≠ globals)
    (hb : (replay front bindings w.scope w.name).isSome) : w.kind = .assignment := by
  subst he
  obtain ⟨-, hw, -⟩ := definesOnce_append.1 h
  cases hk : w.kind with
  | assignment => rfl
  | definition =>
    rw [hw hk hs] at hb
    cases hb

end DefinesOnce

/-- Names that are all different, and that a scope does not bind yet, are bound in it one after the other. -/
theorem definesOnce_opened {entries : List (String × Value)} (hn : (entries.map Prod.fst).Nodup)
    (hb : ∀ entry ∈ entries, bindings scope entry.1 = none) : DefinesOnce globals
      (entries.map fun entry => ⟨.definition, scope, entry.1, entry.2⟩) bindings := by
  induction entries generalizing bindings with
  | nil => trivial
  | cons entry rest ih =>
    obtain ⟨hentry, hrest⟩ := List.forall_mem_cons.1 hb
    obtain ⟨hnew, hn⟩ := List.nodup_cons.1 hn
    refine ⟨fun _ _ => hentry, ih hn fun other ho => ?_⟩
    have hne : ¬ (scope = scope ∧ entry.1 = other.1) := fun h =>
      hnew (List.mem_map.2 ⟨other, ho, h.2.symm⟩)
    exact (if_neg hne).trans (hrest other ho)

/-- What a new scope binds is what was written to it. -/
theorem replay_opened (entries : List (String × Value)) (table : Table Value) (bindings : Bindings) :
    replay (entries.map fun entry => ⟨.definition, scope, entry.1, entry.2⟩)
      (fun other name => if other = scope then table.get? name else bindings other name) =
    fun other name => if other = scope then
      (entries.foldl (fun table entry => table.put entry.1 entry.2) table).get? name
      else bindings other name := by
  induction entries generalizing table with
  | nil => rfl
  | cons entry rest ih =>
    rw [List.foldl_cons, ← ih, List.map_cons]
    refine congrArg (replay (rest.map fun entry => ⟨.definition, scope, entry.1, entry.2⟩)) ?_
    funext other name
    unfold Write.apply
    by_cases ho : scope = other
    · subst ho
      simp [Table.get?_put]
    · simp [ho, Ne.symm ho]

end Replay

/-! ## Effects and their writes -/

/-- Between two machines these writes were made and no others, and definitions among them in scopes other than
the globals found their names unbound. -/
structure Wrote (writes : List Write) (m m' : Machine) : Prop where
  globals : m'.globals = m.globals
  bindings : m'.store.binding? = replay writes m.store.binding?
  once : DefinesOnce m.globals writes m.store.binding?

theorem Wrote.nothing {m m' : Machine} (h : SameScopes m m') : Wrote [] m m' :=
  ⟨h.globals, h.bindings, trivial⟩

theorem Wrote.trans {ws ws' : List Write} {m m' m'' : Machine} (h : Wrote ws m m') (h' : Wrote ws' m' m'') :
    Wrote (ws ++ ws') m m'' where
  globals := h'.globals.trans h.globals
  bindings := by rw [replay_append, ← h.bindings, h'.bindings]
  once := by
    rw [definesOnce_append, ← h.bindings, ← h.globals]
    exact ⟨h.globals ▸ h.once, h'.once⟩

/-- Started in this machine, the effect makes the writes that are noted, however it ends. -/
def Logged {α : Type} (t : Traced Write α) (m : Machine) : Prop := Wrote (t m).2 m (t m).1.machine

namespace Logged
variable {α β : Type} {t : Traced Write α} {m : Machine}

theorem silent {effect : Effect α} (h : Silent effect) : Logged (.quiet effect) m := .nothing (h m)

theorem yield (a : α) : Logged (pure a) m := .nothing (.refl m)

theorem bind {next : α → Traced Write β} (h : Logged t m)
    (hn : ∀ a after, (t m).1 = .done a after → Logged (next a) after) : Logged (t >>= next) m := by
  change Wrote (Traced.andThen t next m).2 m (Traced.andThen t next m).1.machine
  unfold Logged at h
  unfold Traced.andThen
  rcases hr : t m with ⟨⟨a, after⟩ | ⟨e, after⟩ | after, writes⟩
  · rw [hr] at h hn
    exact h.trans (hn a after rfl)
  · rw [hr] at h
    exact h
  · rw [hr] at h
    exact h

theorem within {scope : ScopeId} (h : Logged t { m with current := scope }) : Logged (.within scope t) m := by
  unfold Logged at h ⊢
  unfold Traced.within
  rcases hr : t { m with current := scope } with ⟨⟨a, after⟩ | ⟨e, after⟩ | after, writes⟩ <;>
    rw [hr] at h <;> exact ⟨h.globals, h.bindings, h.once⟩

/-! ## Single writes -/

/-- A new scope is opened for names that are all different. -/
theorem openScope {opening : Opening} (hn : (opening.entries.map Prod.fst).Nodup) :
    Logged (writeNotes.operations.openScope opening) m := by
  have hnone (name : String) : m.store.binding? m.store.scopes.size name = none := by
    unfold Store.binding?
    rw [Array.getElem?_eq_none (Nat.le_refl _)]
    rfl
  refine ⟨rfl, ?_, definesOnce_opened hn fun entry _ => hnone entry.1⟩
  have hempty : m.store.binding? = fun other name =>
      if other = m.store.scopes.size then Table.get? name [] else m.store.binding? other name := by
    funext other name
    split
    · rename_i ho
      rw [ho, hnone]
      rfl
    · rfl
  change (m.store.newScope opening.bindings (some opening.around)).2.binding? =
    replay (opening.entries.map fun entry => ⟨.definition, m.store.scopes.size, entry.1, entry.2⟩)
      m.store.binding?
  rw [hempty, replay_opened, opening.bindings_eq]
  funext other name
  exact Store.newScope_binding ..

/-- A value is written to a scope that is there. -/
theorem define {scope : ScopeId} {name : String} {value : Value} {kind : WriteKind}
    (hs : scope < m.store.scopes.size)
    (hn : kind = .definition → scope ≠ m.globals → m.store.binding? scope name = none) :
    Wrote [⟨kind, scope, name, value⟩] m { m with store := m.store.define scope name value } := by
  refine ⟨rfl, ?_, hn, trivial⟩
  funext other found
  change (m.store.define scope name value).binding? other found =
    Write.apply ⟨kind, scope, name, value⟩ m.store.binding? other found
  unfold Write.apply
  by_cases ho : scope = other
  · subst ho
    rw [Store.define_binding_self hs]
    simp
  · rw [Store.define_binding_ne (Ne.symm ho), if_neg fun h => ho h.1]

/-- A name is defined in the current scope, where it is not bound, or which is that of the globals. -/
theorem defineHere {name : String} {value : Value} (hs : m.current < m.store.scopes.size)
    (hn : m.current ≠ m.globals → m.store.binding? m.current name = none) :
    Logged (writeNotes.operations.define name value) m := define hs fun _ => hn

/-- A name is changed where a lookup finds it bound. -/
theorem rebind {line : Nat} {find : Machine → Option ScopeId} {name : String} {value : Value}
    (hf : ∀ holder, find m = some holder → (m.store.binding? holder name).isSome) :
    Logged (.noting (fun m => Write.assigning (find m) name value) do
      let found ← Effect.read find
      let holder ← Effect.ofOption line (.undefinedVariable name) found
      Effect.modifyStore fun s => s.define holder name value) m := by
  unfold Logged Traced.noting Write.assigning
  rw [Effect.read_bind]
  dsimp only
  cases hr : find m with
  | none => exact .nothing (.refl m)
  | some holder => exact define (Store.lt_size_of_bound (hf holder hr)) nofun

theorem assign (depth : Option Nat) (name : Name) (value : Value) :
    Logged (writeNotes.operations.assign depth name value) m :=
  rebind fun _ => holder_bound

theorem conclude (name : Name) (value : Value) : Logged (writeNotes.operations.conclude name value) m :=
  rebind fun _ => Store.binder_bound

end Logged

/-- Behind an effect that ends at a good moment, writes are made at this moment. -/
theorem Logged.next {programs : List (List Stmt)} {now : Moment} {own : Option ScopeId} {α β : Type}
    {t : Traced Write α} {trace : Traced Event α} {effect : Effect α} {post : α → Moment → Prop}
    {next : α → Traced Write β} (h : Logged t now.machine) (hw : Watches t effect)
    (he : Ends programs own trace now post) (ht : Watches trace effect)
    (hn : ∀ a now', Good programs now' → Later own now now' → post a now' → Logged (next a) now'.machine) :
    Logged (t >>= next) now.machine := by
  apply h.bind
  intro a after hr
  have hdone : (trace now.machine).1 = .done a after := (ht.outcome _).trans ((hw.outcome _).symm.trans hr)
  have hmachine : (trace.after now).machine = after := congrArg Outcome.machine hdone
  have hlater := hn a _ he.good he.later (he.yields a after hdone)
  rwa [hmachine] at hlater

/-- The account of all writes. -/
def writeAccount (programs : List (List Stmt)) : Account programs writeNotes where
  Always t := ∀ m, Logged t m
  Holds now t := Logged t now.machine
  holds now h := h now.machine
  pure a _ := .yield a
  silent h _ := .silent h
  bind h hn m := (h m).bind fun a after _ => hn a after
  depthOf _ _ _ := .silent (.read _)
  openScope hn _ := .openScope hn
  assign depth name value _ := .assign depth name value
  conclude name value _ := .conclude name value
  define hs hn := .defineHere hs hn
  andThen h hn := h.bind fun a after _ => hn a after
  next := .next
  within h := h.within
  holding _ h := h
  entering _ _ _ _ h := h

end LoxLang
