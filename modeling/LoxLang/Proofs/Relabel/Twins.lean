import LoxLang.Proofs.Relabel.Store
import LoxLang.Proofs.Simulation

/-!
# Twin machines

Two machines that differ only in what no run can tell apart: the lines of the functions in the store, the
identities of their references, the depths of references that no function has, and the text that was printed
before. Effects are alike if they take twins to twins and end in the same way, an error on the line that
stands for the one that the first one blames.
-/

namespace LoxLang

/-! ## Older code -/

def Closure.Older (next : NodeId) (c : Closure) : Prop := ∀ id ∈ c.declaration.ids, id < next

def ClassObject.Older (next : NodeId) (c : ClassObject) : Prop :=
  ∀ name f, c.method? name = some f → f.Older next

/-- All references of the functions in the value have identities below `next`. -/
def Value.Older (next : NodeId) : Value → Prop
  | .function _ f => f.Older next
  | .classObject c => c.Older next
  | .instanceOf _ c => c.Older next
  | _ => True

theorem Value.CodeFree.older {value : Value} (h : value.CodeFree) (next : NodeId) : value.Older next := by
  cases value with
  | function | classObject | instanceOf => cases h
  | _ => trivial

theorem Value.Older.mono {value : Value} {next later : NodeId} (h : value.Older next)
    (hle : next ≤ later) : value.Older later := by
  cases value with
  | function id f => exact fun id hid => Nat.lt_of_lt_of_le (h id hid) hle
  | classObject c | instanceOf _ c =>
    exact fun name f hf id hid => Nat.lt_of_lt_of_le (h name f hf id hid) hle
  | _ => trivial

/-- All references of the functions in the store have identities below `next`. -/
structure Store.Older (next : NodeId) (s : Store) : Prop where
  bindings : ∀ scope name value, s.binding? scope name = some value → value.Older next
  items : ∀ list, ∀ value ∈ s.items list, value.Older next
  fields : ∀ object name value, s.field? object name = some value → value.Older next

namespace Store.Older
variable {next : NodeId} {s : Store}

theorem mono {later : NodeId} (h : s.Older next) (hle : next ≤ later) : s.Older later where
  bindings scope name value hb := (h.bindings scope name value hb).mono hle
  items list value hm := (h.items list value hm).mono hle
  fields object name value hf := (h.fields object name value hf).mono hle

theorem define (h : s.Older next) (scope : ScopeId) (name : String) {value : Value}
    (hv : value.Older next) : (s.define scope name value).Older next where
  bindings other found value' hb := by
    rcases define_binding_cases hb with rfl | hb
    · exact hv
    · exact h.bindings _ _ _ hb
  items := h.items
  fields := h.fields

theorem newScope (h : s.Older next) {bindings : Table Value} (around : Option ScopeId)
    (hb : ∀ name value, bindings.get? name = some value → value.Older next) :
    (s.newScope bindings around).2.Older next where
  bindings scope name value hv := by
    rw [newScope_binding] at hv
    split at hv
    · exact hb _ _ hv
    · exact h.bindings _ _ _ hv
  items := h.items
  fields := h.fields

theorem newIdentity (h : s.Older next) : s.newIdentity.2.Older next := ⟨h.bindings, h.items, h.fields⟩

theorem newList (h : s.Older next) {items : Array Value} (hi : ∀ value ∈ items, value.Older next) :
    (s.newList items).2.Older next where
  bindings := h.bindings
  items list value hm := by
    rcases mem_items_newList hm with hm | hm
    · exact hi value hm
    · exact h.items list value hm
  fields := h.fields

theorem setItemAt (h : s.Older next) (list : ListId) (index : Value) {value : Value}
    (hv : value.Older next) : (s.setItemAt list index value).2.Older next := by
  obtain ⟨hscopes, hinstances⟩ := setItemAt_scopes s list index value
  constructor
  · intro scope name found hb
    unfold binding? at hb
    rw [hscopes] at hb
    exact h.bindings scope name found hb
  · intro other found hm
    rcases mem_items_setItemAt hm with rfl | ⟨other, hm⟩
    · exact hv
    · exact h.items other found hm
  · intro object name found hf
    unfold field? at hf
    rw [hinstances] at hf
    exact h.fields object name found hf

theorem callListMethod (h : s.Older next) (list : ListId) (method : ListMethod) {arguments : List Value}
    (ha : ∀ value ∈ arguments, value.Older next) :
    (s.callListMethod list method arguments).2.Older next := by
  obtain ⟨hscopes, hinstances⟩ := callListMethod_scopes s list method arguments
  constructor
  · intro scope name found hb
    unfold binding? at hb
    rw [hscopes] at hb
    exact h.bindings scope name found hb
  · intro other found hm
    rcases mem_items_callListMethod hm with hm | ⟨other, hm⟩
    · exact ha found hm
    · exact h.items other found hm
  · intro object name found hf
    unfold field? at hf
    rw [hinstances] at hf
    exact h.fields object name found hf

theorem newInstance (h : s.Older next) : s.newInstance.2.Older next where
  bindings := h.bindings
  items := h.items
  fields object name value hf := by
    rw [field_newInstance] at hf
    exact h.fields object name value hf

theorem setField (h : s.Older next) (object : InstanceId) (name : String) {value : Value}
    (hv : value.Older next) : (s.setField object name value).Older next where
  bindings := h.bindings
  items := h.items
  fields other found value' hf := by
    rcases field_setField hf with rfl | hf
    · exact hv
    · exact h.fields _ _ _ hf

end Store.Older

section
variable {l : Relabelling} {next later : NodeId} (hl : ∀ id < next, l.id id < later)
include hl

theorem Value.Older.relabel {value : Value} (h : value.Older next) : (value.relabel l).Older later := by
  have hclosure {f : Closure} (hf : f.Older next) : (f.relabel l).Older later := by
    intro id hid
    rw [Closure.relabel, FunctionDecl.relabel_ids] at hid
    obtain ⟨first, hfirst, rfl⟩ := List.mem_map.1 hid
    exact hl first (hf first hfirst)
  have hclass {c : ClassObject} (hc : c.Older next) : (c.relabel l).Older later := by
    intro name f hf
    rw [ClassObject.method?_relabel] at hf
    obtain ⟨method, hm, rfl⟩ := Option.map_eq_some_iff.1 hf
    exact hclosure (hc name method hm)
  cases value with
  | function id f => exact hclosure h
  | classObject c | instanceOf _ c => exact hclass h
  | _ => trivial

theorem Store.Older.relabel {s : Store} (h : s.Older next) : (s.relabel l).Older later where
  bindings scope name value hb := by
    rw [Store.binding?_relabel] at hb
    obtain ⟨value, hv, rfl⟩ := Option.map_eq_some_iff.1 hb
    exact (h.bindings scope name value hv).relabel hl
  items list value hm := by
    rw [Store.items_relabel] at hm
    obtain ⟨value, hv, rfl⟩ := Array.mem_map.1 hm
    exact (h.items list value hv).relabel hl
  fields object name value hf := by
    rw [Store.field?_relabel] at hf
    obtain ⟨value, hv, rfl⟩ := Option.map_eq_some_iff.1 hf
    exact (h.fields object name value hv).relabel hl

end

/-! ## Twins -/

/-- What may differ between twin machines. -/
structure Difference where
  /-- The lines and identities in the second machine for those in the first. -/
  label : Relabelling
  /-- A bound of the identities of references. -/
  next : NodeId
  depths : Depths
  depths' : Depths
  /-- What was printed before in the second machine. -/
  printed : String
  agree : ∀ id < next, depths'[label.id id]? = depths[id]?

/-- The console with text printed before what it has. -/
def Console.behind (text : String) (c : Console) : Console := { c with written := text ++ c.written }

structure Twins (d : Difference) (m m' : Machine) : Prop where
  store : m'.store = m.store.relabel d.label
  older : m.store.Older d.next
  current : m'.current = m.current
  globals : m'.globals = m.globals
  depths : m.depths = d.depths
  depths' : m'.depths = d.depths'
  console : m'.console = m.console.behind d.printed
  clock : m'.clock = m.clock

/-- The second value is the first one with other labels. -/
structure SameValue (d : Difference) (value value' : Value) : Prop where
  eq : value' = value.relabel d.label
  older : value.Older d.next

structure SameValues (d : Difference) (values values' : List Value) : Prop where
  eq : values' = values.map (Value.relabel d.label)
  older : ∀ value ∈ values, value.Older d.next

structure SameClosure (d : Difference) (f f' : Closure) : Prop where
  eq : f' = f.relabel d.label
  older : f.Older d.next

structure SameClass (d : Difference) (c c' : ClassObject) : Prop where
  eq : c' = c.relabel d.label
  older : c.Older d.next

/-- How the same effect ends on twins. -/
inductive EndsAlike {α : Type} (d : Difference) (R : α → α → Prop) : Outcome α → Outcome α → Prop
  | done {a a' : α} {m m' : Machine} : R a a' → Twins d m m' → EndsAlike d R (.done a m) (.done a' m')
  | failed {e : RuntimeError} {m m' : Machine} : Twins d m m' →
      EndsAlike d R (.failed e m) (.failed ⟨e.fault, d.label.line e.line⟩ m')
  | outOfFuel {m m' : Machine} : Twins d m m' → EndsAlike d R (.outOfFuel m) (.outOfFuel m')

theorem EndsAlike.imp {α : Type} {d : Difference} {R T : α → α → Prop} {outcome outcome' : Outcome α}
    (h : EndsAlike d R outcome outcome') (hT : ∀ a a', R a a' → T a a') : EndsAlike d T outcome outcome' := by
  cases h with
  | done hr ht => exact .done (hT _ _ hr) ht
  | failed ht => exact .failed ht
  | outOfFuel ht => exact .outOfFuel ht

/-- Two effects that end alike on twins, with values related by `R`. -/
def Alike {α : Type} (d : Difference) (R : α → α → Prop) (effect effect' : Effect α) : Prop :=
  ∀ m m', Twins d m m' → EndsAlike d R (effect m) (effect' m')

section Values
variable {d : Difference}

theorem SameValue.of_codeFree {value : Value} (h : value.CodeFree) : SameValue d value value :=
  ⟨(h.relabel d.label).symm, h.older d.next⟩

theorem sameValue_nil : SameValue d .nil .nil := .of_codeFree trivial

theorem sameValues_nil : SameValues d [] [] := ⟨rfl, by simp⟩

theorem SameValues.cons {value value' : Value} {values values' : List Value}
    (h : SameValue d value value') (hs : SameValues d values values') :
    SameValues d (value :: values) (value' :: values') :=
  ⟨by rw [h.eq, hs.eq, List.map_cons], List.forall_mem_cons.2 ⟨h.older, hs.older⟩⟩

end Values

namespace Alike
variable {d : Difference} {α β : Type} {R : α → α → Prop} {S : β → β → Prop}

theorem yield {a a' : α} (h : R a a') : Alike d R (pure a) (pure a') := fun _ _ ht => .done h ht

theorem exhausted : Alike d R Effect.exhausted Effect.exhausted := fun _ _ ht => .outOfFuel ht

theorem fail {line line' : Nat} {fault : Fault} (h : line' = d.label.line line) :
    Alike d R (Effect.fail line fault) (Effect.fail line' fault) := by
  subst h
  exact fun _ _ ht => .failed ht

theorem imp {T : α → α → Prop} {effect effect' : Effect α} (h : Alike d R effect effect')
    (hT : ∀ a a', R a a' → T a a') : Alike d T effect effect' := fun m m' ht => (h m m' ht).imp hT

theorem bind {effect effect' : Effect α} {next next' : α → Effect β} (h : Alike d R effect effect')
    (hn : ∀ a a', R a a' → Alike d S (next a) (next' a')) :
    Alike d S (effect >>= next) (effect' >>= next') := by
  intro m m' ht
  have hm := h m m' ht
  change EndsAlike d S (Effect.andThen effect next m) (Effect.andThen effect' next' m')
  unfold Effect.andThen
  cases ha : effect m <;> cases ha' : effect' m' <;> rw [ha, ha'] at hm <;> cases hm
  case done.done.done hr ht' => exact hn _ _ hr _ _ ht'
  case failed.failed.failed ht' => exact .failed ht'
  case outOfFuel.outOfFuel.outOfFuel ht' => exact .outOfFuel ht'

theorem read {find find' : Machine → α} (h : ∀ m m', Twins d m m' → R (find m) (find' m')) :
    Alike d R (Effect.read find) (Effect.read find') := fun m m' ht => .done (h m m' ht) ht

theorem currentScope : Alike d Eq Effect.currentScope Effect.currentScope :=
  read fun _ _ ht => ht.current.symm

theorem ofOption {line line' : Nat} {fault : Fault} {found found' : Option α}
    (hl : line' = d.label.line line) (h : Option.Rel R found found') :
    Alike d R (Effect.ofOption line fault found) (Effect.ofOption line' fault found') := by
  subst hl
  cases h with
  | none => exact fun _ _ ht => .failed ht
  | some h => exact fun _ _ ht => .done h ht

theorem ofExcept {line line' : Nat} {result result' : Except Fault α} {f : α → α}
    (hl : line' = d.label.line line) (h : result' = result.map f) (hR : ∀ a, result = .ok a → R a (f a)) :
    Alike d R (Effect.ofExcept line result) (Effect.ofExcept line' result') := by
  subst hl h
  cases result with
  | error fault => exact fun _ _ ht => .failed ht
  | ok a => exact fun _ _ ht => .done (hR a rfl) ht

theorem modifyStore {change change' : Store → Store}
    (h : ∀ s, s.Older d.next → change' (s.relabel d.label) = (change s).relabel d.label ∧
      (change s).Older d.next) : Alike d Eq (Effect.modifyStore change) (Effect.modifyStore change') := by
  intro m m' ht
  obtain ⟨hs, ho⟩ := h m.store ht.older
  rw [← ht.store] at hs
  exact .done rfl { ht with store := hs, older := ho }

theorem make {making making' : Store → α × Store}
    (h : ∀ s, s.Older d.next → making' (s.relabel d.label) = ((making s).1, (making s).2.relabel d.label) ∧
      (making s).2.Older d.next) : Alike d Eq (Effect.make making) (Effect.make making') := by
  intro m m' ht
  obtain ⟨hs, ho⟩ := h m.store ht.older
  unfold Effect.make
  rw [ht.store, hs]
  exact .done rfl { ht with store := rfl, older := ho }

theorem onStore {line line' : Nat} {operation operation' : Store → Except Fault α × Store} {f : α → α}
    (hl : line' = d.label.line line)
    (h : ∀ s, s.Older d.next →
      operation' (s.relabel d.label) = ((operation s).1.map f, (operation s).2.relabel d.label) ∧
      (operation s).2.Older d.next ∧ ∀ a, (operation s).1 = .ok a → R a (f a)) :
    Alike d R (Effect.onStore line operation) (Effect.onStore line' operation') := by
  subst hl
  intro m m' ht
  obtain ⟨hs, ho, hr⟩ := h m.store ht.older
  unfold Effect.onStore
  rw [ht.store, hs]
  rcases hresult : operation m.store with ⟨_ | a, s⟩
  · rw [hresult] at ho
    exact .failed { ht with store := rfl, older := ho }
  · rw [hresult] at ho hr
    exact .done (hr a rfl) { ht with store := rfl, older := ho }

theorem onConsole {line line' : Nat} {operation : Console → Except Fault α × Console}
    (hl : line' = d.label.line line) (h : ∀ c, operation (c.behind d.printed) =
      ((operation c).1, (operation c).2.behind d.printed)) :
    Alike d Eq (Effect.onConsole line operation) (Effect.onConsole line' operation) := by
  subst hl
  intro m m' ht
  unfold Effect.onConsole
  rw [ht.console, h]
  rcases operation m.console with ⟨_ | a, c⟩
  · exact .failed { ht with console := rfl }
  · exact .done rfl { ht with console := rfl }

theorem within (scope : ScopeId) {effect effect' : Effect α} (h : Alike d R effect effect') :
    Alike d R (Effect.within scope effect) (Effect.within scope effect') := by
  intro m m' ht
  have hm := h _ _ (show Twins d { m with current := scope } { m' with current := scope } from
    { ht with current := rfl })
  unfold Effect.within
  rw [ht.current]
  cases ha : effect { m with current := scope } <;> cases ha' : effect' { m' with current := scope } <;>
    rw [ha, ha'] at hm <;> cases hm
  case done.done.done hr ht' => exact .done hr { ht' with current := rfl }
  case failed.failed.failed ht' => exact .failed { ht' with current := rfl }
  case outOfFuel.outOfFuel.outOfFuel ht' => exact .outOfFuel { ht' with current := rfl }

end Alike

end LoxLang
