import LoxLang.Proofs.Scoping.Invariant

/-!
# Where a depth leads

At a justified use the scopes on the way out are those of the context, one for each layer, and the globals.
The depth of a name in the context therefore leads to the scope that was opened for the layer that declares
the name, and that scope binds it unless the use stands in the initializer of the very name.
-/

namespace LoxLang

section
variable {t : Moment} {layers : List Layer} {s : ScopeId}

theorem Encloses.chainFrom (h : Encloses t layers s) (ho : Orderly t) :
    ∃ scopes : List ScopeId, scopes.length = layers.length ∧
      (∀ fuel, s < fuel → t.store.chainFrom fuel s = scopes ++ [t.machine.globals]) ∧
      ∀ d layer, layers[d]? = some layer →
        scopes[d]? = some (t.store.ancestor d s) ∧ t.store.ancestor d s ≠ t.machine.globals ∧
          .opened (t.store.ancestor d s) layer.site ∈ t.log ∧
          ∀ name, layer.frame.get? name = some true → t.Bound (t.store.ancestor d s) name := by
  induction h with
  | globals =>
    refine ⟨[], rfl, ?_, by simp⟩
    intro fuel hf
    obtain ⟨fuel, rfl⟩ := Nat.exists_eq_succ_of_ne_zero (Nat.ne_of_gt (Nat.zero_lt_of_lt hf))
    have houtermost := ho.outermost
    unfold Store.enclosing? at houtermost
    unfold Store.chainFrom
    have hpresent : ∃ globals, t.store.scopes[t.machine.globals]? = some globals :=
      ⟨_, Array.getElem?_eq_getElem ho.present⟩
    obtain ⟨globals, hpresent⟩ := hpresent
    rw [hpresent] at houtermost ⊢
    have hnone : globals.enclosing = none := houtermost
    dsimp only
    rw [hnone]
    rfl
  | @scope layer outer s around hne hl _ hs hb _ ih =>
    obtain ⟨scopes, hlength, hchain, hd⟩ := ih
    refine ⟨s :: scopes, congrArg Nat.succ hlength, ?_, ?_⟩
    · intro fuel hf
      obtain ⟨fuel, rfl⟩ := Nat.exists_eq_succ_of_ne_zero (Nat.ne_of_gt (Nat.zero_lt_of_lt hf))
      have haround : around < fuel := Nat.lt_of_lt_of_le (ho.inward s around hs) (Nat.le_of_lt_succ hf)
      have hrest := hchain fuel haround
      unfold Store.enclosing? at hs
      obtain ⟨found, hfound, henclosing⟩ := Option.bind_eq_some_iff.1 hs
      unfold Store.chainFrom
      rw [hfound]
      dsimp only
      rw [henclosing]
      dsimp only
      rw [hrest]
      rfl
    · intro d found hfound
      cases d with
      | zero =>
        cases hfound
        exact ⟨rfl, hne, hl, hb⟩
      | succ d =>
        have hancestor : t.store.ancestor (d + 1) s = t.store.ancestor d around := by
          rw [Store.ancestor, hs]
        rw [hancestor]
        exact hd d found hfound

end

/-- The scopes around a moment are those of a context: as many as there are layers, each opened for its
layer and for nothing else, with the globals around them. -/
structure Aligned (c : Context) (t : Moment) (scopes : List ScopeId) : Prop where
  chain : t.store.chain t.machine.current = scopes ++ [t.machine.globals]
  length : scopes.length = c.layers.length
  opened : ∀ d layer, c.layers[d]? = some layer →
    scopes[d]? = some (t.store.ancestor d t.machine.current) ∧
      t.store.ancestor d t.machine.current ≠ t.machine.globals ∧
      ∀ site, .opened (t.store.ancestor d t.machine.current) site ∈ t.log ↔ site = layer.site

theorem Current.aligned {c : Context} {t : Moment} (hc : Current c t) (ho : Orderly t) :
    ∃ scopes, Aligned c t scopes := by
  obtain ⟨scopes, hlength, hchain, hd⟩ := hc.scopes.chainFrom ho
  refine ⟨scopes, hchain _ (Nat.lt_succ_self _), hlength, ?_⟩
  intro d layer hlayer
  obtain ⟨hscope, hne, hopened, -⟩ := hd d layer hlayer
  refine ⟨hscope, hne, fun site => ⟨fun h => ho.unique _ _ _ h hopened, ?_⟩⟩
  rintro rfl
  exact hopened

/-- The layer at the depth of a name is the innermost one that declares it. -/
theorem layer_of_depth {c : Context} {name : String} {d : Nat} (h : depthIn? name c.frames = some d) :
    ∃ layer, c.layers[d]? = some layer ∧ layer.frame.has name = true ∧
      ∀ e inner, e < d → c.layers[e]? = some inner → inner.frame.has name = false := by
  unfold depthIn? Context.frames at h
  obtain ⟨hlt, hhas, hinner⟩ := List.findIdx?_eq_some_iff_getElem.1 h
  rw [List.length_map] at hlt
  refine ⟨c.layers[d], List.getElem?_eq_getElem hlt, by simpa using hhas, ?_⟩
  intro e inner he hinner'
  have hlte : e < c.layers.length := Nat.lt_trans he hlt
  rw [List.getElem?_eq_getElem hlte] at hinner'
  cases hinner'
  simpa using hinner e he

/-- The scope at the depth of a name binds it, if and only if the name is ready in the context. -/
theorem Current.bound_iff {c : Context} {t : Moment} (hc : Current c t) (ho : Orderly t) {name : String}
    {d : Nat} (hd : depthIn? name c.frames = some d) (houter : ∀ layer ∈ c.layers.tail, layer.frame.Ready) :
    t.Bound (t.store.ancestor d t.machine.current) name ↔
      c.frames.head?.bind (Table.get? name) ≠ some false := by
  obtain ⟨scopes, -, -, hscopes⟩ := hc.scopes.chainFrom ho
  obtain ⟨layer, hlayer, hhas, hinner⟩ := layer_of_depth hd
  obtain ⟨setting, layers⟩ := c
  cases layers with
  | nil => cases hlayer
  | cons first outer =>
    change _ ↔ Table.get? name first.frame ≠ some false
    cases d with
    | zero =>
      cases hlayer
      have hx := hc.exact layer rfl name
      rw [show t.store.ancestor 0 t.machine.current = t.machine.current from rfl, hx]
      unfold Table.has at hhas
      cases hget : Table.get? name layer.frame with
      | none =>
        rw [hget] at hhas
        cases hhas
      | some ready => cases ready <;> simp
    | succ d =>
      have hfirst := hinner 0 first (Nat.succ_pos d) rfl
      have hnone : Table.get? name first.frame = none := by
        unfold Table.has at hfirst
        exact Option.not_isSome_iff_eq_none.1 (by simp [hfirst])
      have htrue : Table.get? name layer.frame = some true := by
        have hready := houter layer (List.mem_of_getElem? hlayer) name
        unfold Table.has at hhas
        obtain ⟨ready, hget⟩ := Option.isSome_iff_exists.1 hhas
        rw [hget] at hready ⊢
        cases ready
        · exact absurd rfl hready
        · rfl
      constructor
      · intro _
        rw [hnone]
        simp
      · intro _
        exact (hscopes (d + 1) layer hlayer).2.2.2 name htrue

theorem Uses.outer_ready {program : List Stmt} {c : Context} {e : Expr} (h : Uses program c e) :
    ∀ layer ∈ c.layers.tail, layer.frame.Ready := by
  intro layer hl
  rcases h.settled with h | ⟨declared, outside, _, _, hr, rfl, _⟩
  · exact h layer (List.mem_of_mem_tail hl)
  · obtain ⟨setting, layers⟩ := outside
    cases layers with
    | nil => cases hl
    | cons first outer => exact hr layer (List.mem_cons_of_mem _ hl)

/-- An assignment in the initializer of the local variable that it assigns. -/
def AssignsUnready (program : List Stmt) (c : Context) (e : Expr) : Prop :=
  ∃ target operator value declared, e = .assign target operator value ∧
    declared.text = target.name.text ∧ c.layers ≠ [] ∧ InInitializer program c e declared

/-- A name that is used and not ready belongs to an assignment in its own initializer. -/
theorem Uses.unready_iff {program : List Stmt} {c : Context} {e : Expr} (h : Uses program c e)
    (hc : Checked program) {id : NodeId} {name : String} (hu : e.use? = some (id, name)) :
    c.frames.head?.bind (Table.get? name) = some false ↔ AssignsUnready program c e := by
  constructor
  · intro hfalse
    obtain ⟨setting, layers⟩ := c
    cases layers with
    | nil => cases hfalse
    | cons first outer =>
      have hfirst : Table.get? name first.frame = some false := hfalse
      have hinitializer : ∃ declared : Name, declared.text = name ∧
          InInitializer program ⟨setting, first :: outer⟩ e declared := by
        rcases h.settled with hr | ⟨declared, hin⟩
        · exact absurd hfirst (hr first List.mem_cons_self name)
        · refine ⟨declared, ?_, hin⟩
          obtain ⟨⟨_, layers⟩, _, _, hr, he, _⟩ := hin
          cases layers with
          | nil => cases he
          | cons layer _ =>
            cases he
            rw [Table.get?_put] at hfirst
            split at hfirst
            · assumption
            · exact absurd hfirst (hr layer List.mem_cons_self name)
      have hplain : Frame.Plain first.frame := (h.fits hc.named).innermost first rfl
      have hne : ∀ other : String, first.frame.has other = false → name ≠ other := by
        rintro other hother rfl
        unfold Table.has at hother
        rw [hfirst] at hother
        cases hother
      obtain ⟨declared, hd, hin⟩ := hinitializer
      cases e with
      | reference target =>
        cases hu
        exact absurd hfalse (h.ready hc)
      | assign target operator value =>
        cases hu
        exact ⟨target, operator, value, declared, rfl, hd, by simp, hin⟩
      | receiver =>
        cases hu
        exact absurd rfl (hne _ hplain.1)
      | inherited =>
        cases hu
        exact absurd rfl (hne _ hplain.2)
      | _ => cases hu
  · rintro ⟨target, operator, value, declared, rfl, hd, hne, ⟨setting, layers⟩, _, _, _, rfl, _⟩
    cases hu
    cases layers with
    | nil => exact absurd rfl hne
    | cons layer outer =>
      change Table.get? target.name.text (Table.put declared.text false layer.frame) = some false
      rw [← hd, Table.get?_put_self]

end LoxLang
