import LoxLang.Proofs.Effect
import LoxLang.Proofs.Store.Chain

/-!
# Families of scopes

Any finite number of scopes, each around any others so long as none is around itself, can be made one after the
other, so that each comes behind the one around it. What holds of every store of this kind therefore holds of
every such family. The laws of reading and assigning names are put together here, and tied to the effects by
which a running program reads and changes its variables.
-/

namespace LoxLang

/-- Scopes in no particular order, each with its names and with the scope around it, and none around itself. -/
structure Family (ι : Type) where
  bindings : ι → Table Value
  enclosing : ι → Option ι
  acyclic : ∀ i, ¬ Relation.TransGen (fun outer inner => enclosing inner = some outer) i i

namespace Family
variable {ι : Type}

/-- A store that holds the family and nothing else, under these numbers. -/
structure Held (f : Family ι) (s : Store) (number : ι → ScopeId) : Prop where
  inward : s.Inward
  injective : Function.Injective number
  onto : ∀ scope < s.scopes.size, ∃ i, number i = scope
  enclosing : ∀ i, s.enclosing? (number i) = (f.enclosing i).map number
  binding : ∀ i name, s.binding? (number i) name = (f.bindings i).get? name

/-- What has no circles can be put in a row. -/
theorem exists_numbering [Fintype ι] {before : ι → ι → Prop} (h : ∀ i, ¬ Relation.TransGen before i i) :
    ∃ number : ι ≃ Fin (Fintype.card ι), ∀ i j, before i j → number i < number j := by
  let _ : PartialOrder ι :=
    { le := Relation.ReflTransGen before
      le_refl := fun _ => .refl
      le_trans := fun _ _ _ => .trans
      le_antisymm := by
        intro i j hij hji
        obtain rfl | hij := Relation.reflTransGen_iff_eq_or_transGen.1 hij
        · rfl
        · exact absurd (hij.trans_left hji) (h i) }
  let _ : Fintype (LinearExtension ι) := inferInstanceAs (Fintype ι)
  let number : ι ≃ Fin (Fintype.card ι) := (monoEquivOfFin (LinearExtension ι) rfl).symm.toEquiv
  refine ⟨number, fun i j hij => lt_of_le_of_ne ?_ ?_⟩
  · have hle : i ≤ j := .single hij
    exact (monoEquivOfFin (LinearExtension ι) rfl).symm.monotone (toLinearExtension.monotone hle)
  · intro heq
    obtain rfl := number.injective heq
    exact h i (.single hij)

/-- The scopes of the family in the order of their numbers. -/
def store {size : Nat} (f : Family ι) (number : ι ≃ Fin size) : Store where
  scopes := Array.ofFn fun k => ⟨f.bindings (number.symm k), (f.enclosing (number.symm k)).map (number · |>.val)⟩

theorem scopes_store {size : Nat} (f : Family ι) (number : ι ≃ Fin size) (i : ι) :
    (f.store number).scopes[(number i : Nat)]? =
      some ⟨f.bindings i, (f.enclosing i).map (number · |>.val)⟩ := by
  simp [store]

theorem exists_held [Finite ι] (f : Family ι) : ∃ s number, f.Held s number := by
  cases nonempty_fintype ι
  obtain ⟨number, hnumber⟩ := exists_numbering f.acyclic
  have honto : ∀ scope < (f.store number).scopes.size, ∃ i, (number i : Nat) = scope := by
    intro scope hs
    have hs : scope < Fintype.card ι := by simpa [store] using hs
    exact ⟨number.symm ⟨scope, hs⟩, by simp⟩
  have henclosing : ∀ i, (f.store number).enclosing? (number i : Nat) =
      (f.enclosing i).map (number · |>.val) := by
    intro i
    simp [Store.enclosing?, scopes_store]
  refine ⟨f.store number, fun i => number i, ?_, ?_, honto, henclosing, ?_⟩
  · intro scope outer he
    obtain ⟨i, rfl⟩ := honto scope (Store.lt_size_of_enclosing he)
    rw [henclosing] at he
    obtain ⟨j, hj, rfl⟩ := Option.map_eq_some_iff.1 he
    exact hnumber j i hj
  · exact Fin.val_injective.comp number.injective
  · intro i name
    simp [Store.binding?, scopes_store]

end Family

/-! ## The names of a running program -/

/-- The store after an assignment, or else a fault for the name, with the store as it was. -/
def Effect.assigned (name : Name) (result : Option Store) : Effect Unit := fun m =>
  match result with
  | some store => .done () { m with store }
  | none => .failed ⟨.undefinedVariable name.text, name.line⟩ m

/-- A global name is searched for from the globals, and any other one is read where its depth says. -/
theorem readName_eq (depth : Option Nat) (name : Name) (m : Machine) :
    readName depth name m = Effect.ofOption name.line (.undefinedVariable name.text)
      (match depth with
      | none => m.store.lookup? m.globals name.text
      | some distance => m.store.lookupAt? m.current distance name.text) m := by
  cases depth <;> rfl

theorem writeName_eq (depth : Option Nat) (name : Name) (value : Value) (m : Machine) :
    writeName depth name value m = Effect.assigned name
      (match depth with
      | none => m.store.assign? m.globals name.text value
      | some distance => m.store.assignAt? m.current distance name.text value) m := by
  have hholder : writeName depth name value m = Effect.assigned name
      ((m.holder? depth name.text).map fun holder => m.store.define holder name.text value) m := by
    unfold writeName
    cases hfound : m.holder? depth name.text with
    | none =>
      have hmissing : holderOf depth name m = .failed ⟨.undefinedVariable name.text, name.line⟩ m := by
        unfold holderOf
        rw [Effect.read_bind, hfound]
        rfl
      rw [Effect.bind_failed hmissing]
      rfl
    | some holder =>
      have hthere : holderOf depth name m = .done holder m := by
        unfold holderOf
        rw [Effect.read_bind, hfound]
        rfl
      rw [Effect.bind_done hthere]
      rfl
  rw [hholder]
  cases depth <;> rfl

/-! ## The laws -/

/-- Names in a finite family of scopes. An assignment succeeds where reading does, and then it changes one slot
only: that of the innermost scope that binds the name or, at a distance, that of the scope there. Two walks are
one walk, and at the distance of the innermost scope walking and searching come to the same. Running programs
read and assign their variables in this way, and where that fails they leave the machine as it was. -/
theorem scope_store_laws {ι : Type} [Finite ι] (f : Family ι) :
    (∃ s number, f.Held s number) ∧
    (∀ s number, f.Held s number → ∀ (i : ι) (name : String) (value : Value),
      s.Agree name value (s.Innermost name (number i)) (fun s => s.lookup? (number i) name)
        (s.assign? (number i) name value) ∧
      ∀ distance,
        s.Agree name value (· = s.ancestor distance (number i)) (fun s => s.lookupAt? (number i) distance name)
          (s.assignAt? (number i) distance name value) ∧
        (∀ further, s.ancestor further (s.ancestor distance (number i)) =
          s.ancestor (distance + further) (number i)) ∧
        (s.Innermost name (number i) (s.ancestor distance (number i)) →
          s.lookupAt? (number i) distance name = s.lookup? (number i) name ∧
          s.assignAt? (number i) distance name value = s.assign? (number i) name value)) ∧
    ∀ (depth : Option Nat) (name : Name) (value : Value) (m : Machine),
      readName depth name m = Effect.ofOption name.line (.undefinedVariable name.text)
        (match depth with
        | none => m.store.lookup? m.globals name.text
        | some distance => m.store.lookupAt? m.current distance name.text) m ∧
      writeName depth name value m = Effect.assigned name
        (match depth with
        | none => m.store.assign? m.globals name.text value
        | some distance => m.store.assignAt? m.current distance name.text value) m := by
  refine ⟨f.exists_held, ?_, fun depth name value m => ⟨readName_eq .., writeName_eq ..⟩⟩
  intro s number h i name value
  refine ⟨h.inward.agree .., fun distance => ⟨s.agree_at .., fun further => ?_, fun hi => ?_⟩⟩
  · exact s.ancestor_ancestor ..
  · have hsame := h.inward.at_innermost hi
    exact ⟨hsame.1, hsame.2 value⟩

/-- Three scopes, each around the next one. The outer two bind a name, and the innermost one does not. -/
def threeScopes : Family (Fin 3) where
  bindings i := if i = 2 then [] else [("a", .bool true)]
  enclosing i := if i = 0 then none else some (i - 1)
  acyclic i hi := by
    have hstep : ∀ outer inner : Fin 3, (if inner = 0 then none else some (inner - 1)) = some outer →
        outer < inner := by decide
    have hlt : i < i := Relation.transGen_minimal hstep i i hi
    exact absurd hlt (lt_irrefl i)

/-- Seen from the innermost of three scopes, the middle one is assigned to, and the outer one keeps its value. -/
theorem scope_store_laws_three : ∃ s, ∃ number : Fin 3 → ScopeId, threeScopes.Held s number ∧
    ∃ s', s.assign? (number 2) "a" .nil = some s' ∧ s'.lookup? (number 2) "a" = some .nil ∧
      s'.binding? (number 1) "a" = some .nil ∧ s'.binding? (number 0) "a" = some (.bool true) := by
  obtain ⟨⟨s, number, h⟩, hlaws, -⟩ := scope_store_laws threeScopes
  have hagree := (hlaws s number h 2 "a" .nil).1
  have hinner : s.binding? (number 2) "a" = none := h.binding 2 "a"
  have hmiddle : s.binding? (number 1) "a" = some (.bool true) := h.binding 1 "a"
  have houter : s.binding? (number 0) "a" = some (.bool true) := h.binding 0 "a"
  have hi : s.Innermost "a" (number 2) (number 1) := .outward hinner (h.enclosing 2) (.here (by simp [hmiddle]))
  have hread : s.lookup? (number 2) "a" = some (.bool true) := by
    simp [Store.lookup?, h.inward.binder_eq_some_iff.2 hi, hmiddle]
  have hsome : (s.assign? (number 2) "a" .nil).isSome := by simp [hagree.succeeds, hread]
  obtain ⟨s', hs'⟩ := Option.isSome_iff_exists.1 hsome
  obtain ⟨holder, hholder, hchanges, hagain⟩ := hagree.changes s' hs'
  obtain rfl := hholder.unique hi
  have hne : number 0 ≠ number 1 := fun he => absurd (h.injective he) (by decide)
  refine ⟨s, number, h, s', hs', hagain, hchanges.slot, ?_⟩
  rw [hchanges.others _ _ (by simp [hne]), houter]

end LoxLang
