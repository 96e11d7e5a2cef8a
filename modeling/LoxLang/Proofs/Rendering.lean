import Mathlib.Tactic.Tauto
import LoxLang.Store.Rendering

/-!
# Renderings

What is written for a value, as a tree: lists that are written out with the renderings of their items, and
dots where a list stands inside itself. Writing is then a relation between the lists that are open before,
the value, its rendering, and the lists that are open after it. No fuel occurs in it; a rendering takes as
much fuel as lists are written out inside each other.
-/

namespace LoxLang

/-- What is written for a value. A list is written out with its items, or dots stand in its place. -/
inductive Rendering where
  | plain (value : Value)
  | dots (id : ListId)
  | written (id : ListId) (parts : List Rendering)

namespace Rendering

mutual

/-- The text of a rendering. -/
def text : Rendering → String
  | plain value => value.plainText
  | dots _ => insideItself
  | written _ parts => listText (texts parts)

/-- The texts of renderings. -/
def texts : List Rendering → List String
  | [] => []
  | r :: rest => r.text :: texts rest

end

mutual

/-- How many lists are written out inside each other. -/
def height : Rendering → Nat
  | plain _ => 0
  | dots _ => 0
  | written _ parts => greatestHeight parts + 1

/-- The greatest height of renderings. -/
def greatestHeight : List Rendering → Nat
  | [] => 0
  | r :: rest => max r.height (greatestHeight rest)

end

mutual

/-- The lists that occur in a rendering. -/
def lists : Rendering → List ListId
  | plain _ => []
  | dots id => [id]
  | written id parts => id :: listsOfAll parts

/-- The lists that occur in renderings. -/
def listsOfAll : List Rendering → List ListId
  | [] => []
  | r :: rest => r.lists ++ listsOfAll rest

end

end Rendering

mutual

/-- The rendering is one of the value: a list that is written out has its items. -/
inductive Store.Shows (s : Store) : Value → Rendering → Prop
  | plain {value : Value} : (∀ id, value ≠ .list id) → Store.Shows s value (.plain value)
  | dots {id : ListId} : Store.Shows s (.list id) (.dots id)
  | written {id : ListId} {parts : List Rendering} : Store.ShowsAll s (s.items id).toList parts →
      Store.Shows s (.list id) (.written id parts)

/-- The renderings are those of the values. -/
inductive Store.ShowsAll (s : Store) : List Value → List Rendering → Prop
  | nil : Store.ShowsAll s [] []
  | cons {value : Value} {values : List Value} {r : Rendering} {rest : List Rendering} :
      Store.Shows s value r → Store.ShowsAll s values rest → Store.ShowsAll s (value :: values) (r :: rest)

end

mutual

/-- Writing a value while lists are open yields a rendering, and the lists that are open after it. -/
inductive Store.Renders (s : Store) : List ListId → Value → Rendering → List ListId → Prop
  | plain {opened : List ListId} {value : Value} : (∀ id, value ≠ .list id) →
      Store.Renders s opened value (.plain value) opened
  | dots {opened : List ListId} {id : ListId} : id ∈ opened →
      Store.Renders s opened (.list id) (.dots id) (opened.erase id)
  | written {opened after : List ListId} {id : ListId} {parts : List Rendering} : id ∉ opened →
      Store.RendersAll s (id :: opened) (s.items id).toList parts after →
      Store.Renders s opened (.list id) (.written id parts) (after.erase id)

/-- Writing values one after the other. -/
inductive Store.RendersAll (s : Store) : List ListId → List Value → List Rendering → List ListId → Prop
  | nil {opened : List ListId} : Store.RendersAll s opened [] [] opened
  | cons {opened between after : List ListId} {value : Value} {values : List Value} {r : Rendering}
      {rest : List Rendering} : Store.Renders s opened value r between →
      Store.RendersAll s between values rest after →
      Store.RendersAll s opened (value :: values) (r :: rest) after

end

namespace Store
variable {s : Store}

/-! ## Renderings and texts -/

mutual

/-- A rendering takes no more fuel than it is high. -/
theorem Renders.textInside {opened after : List ListId} {value : Value} {r : Rendering} {fuel : Nat} :
    s.Renders opened value r after → r.height ≤ fuel →
      s.textInside fuel opened value = some (r.text, after)
  | .plain hplain, _ => textInside_plain s fuel opened hplain
  | .dots ho, _ => textInside_opened s fuel (List.contains_iff_mem.2 ho)
  | @Renders.written _ _ _ id _ ho hparts, hfuel => by
    obtain ⟨fuel, rfl⟩ : ∃ rest, fuel = rest + 1 := Nat.exists_eq_add_of_le' (Nat.le_of_add_left_le hfuel)
    have hclosed : ¬ opened.contains id = true := fun h => ho (List.contains_iff_mem.1 h)
    have hwalk := hparts.walk (Nat.le_of_succ_le_succ hfuel)
    simp only [Store.textInside, if_neg hclosed, hwalk]
    rfl

theorem RendersAll.walk {opened after : List ListId} {values : List Value} {rs : List Rendering}
    {fuel : Nat} : s.RendersAll opened values rs after → Rendering.greatestHeight rs ≤ fuel →
      walk (s.textInside fuel) opened values = some (Rendering.texts rs, after)
  | .nil, _ => rfl
  | @RendersAll.cons _ _ between _ _ values _ _ hfirst hrest, hfuel => by
    have htext := hfirst.textInside (Nat.le_trans (Nat.le_max_left _ _) hfuel)
    have hwalk := hrest.walk (Nat.le_trans (Nat.le_max_right _ _) hfuel)
    simp only [LoxLang.walk, htext]
    change (LoxLang.walk (s.textInside fuel) between values).bind _ = _
    rw [hwalk]
    rfl

end

/-- If every text with this fuel is that of a rendering, then so are the texts of a list. -/
theorem rendersAll_of_walk {fuel : Nat}
    (h : ∀ {opened after : List ListId} {value : Value} {text : String},
      s.textInside fuel opened value = some (text, after) →
        ∃ r, s.Renders opened value r after ∧ r.text = text)
    {opened after : List ListId} {values : List Value} {texts : List String}
    (hw : walk (s.textInside fuel) opened values = some (texts, after)) :
    ∃ rs, s.RendersAll opened values rs after ∧ Rendering.texts rs = texts := by
  induction values generalizing opened texts with
  | nil =>
    cases hw
    exact ⟨[], .nil, rfl⟩
  | cons value values ih =>
    obtain ⟨⟨text, between⟩, htext, hw⟩ := Option.bind_eq_some_iff.1 hw
    obtain ⟨⟨rest, last⟩, hrest, hw⟩ := Option.bind_eq_some_iff.1 hw
    cases hw
    obtain ⟨r, hr, rfl⟩ := h htext
    obtain ⟨rs, hrs, rfl⟩ := ih hrest
    exact ⟨r :: rs, .cons hr hrs, rfl⟩

/-- The text of a value, unless it is a list that is written out with its items. -/
theorem renders_of_shallow {fuel : Nat} {opened after : List ListId} {value : Value} {text : String}
    (hv : ¬ ∃ id, value = .list id ∧ id ∉ opened)
    (h : s.textInside fuel opened value = some (text, after)) :
    ∃ r, s.Renders opened value r after ∧ r.text = text := by
  by_cases hlist : ∃ id, value = .list id
  · obtain ⟨id, rfl⟩ := hlist
    have ho : id ∈ opened := Decidable.of_not_not fun ho => hv ⟨id, rfl, ho⟩
    rw [textInside_opened s fuel (List.contains_iff_mem.2 ho)] at h
    cases h
    exact ⟨.dots id, .dots ho, rfl⟩
  · have hplain : ∀ id, value ≠ .list id := fun id he => hlist ⟨id, he⟩
    rw [textInside_plain s fuel opened hplain] at h
    cases h
    exact ⟨.plain value, .plain hplain, rfl⟩

theorem renders_of_textInside {fuel : Nat} {opened after : List ListId} {value : Value} {text : String}
    (h : s.textInside fuel opened value = some (text, after)) :
    ∃ r, s.Renders opened value r after ∧ r.text = text := by
  induction fuel generalizing opened after value text with
  | zero =>
    by_cases hv : ∃ id, value = .list id ∧ id ∉ opened
    · obtain ⟨id, rfl, ho⟩ := hv
      simp only [Store.textInside, if_neg (mt List.contains_iff_mem.1 ho)] at h
      cases h
    · exact renders_of_shallow hv h
  | succ fuel ih =>
    by_cases hv : ∃ id, value = .list id ∧ id ∉ opened
    · obtain ⟨id, rfl, ho⟩ := hv
      simp only [Store.textInside, if_neg (mt List.contains_iff_mem.1 ho)] at h
      obtain ⟨⟨texts, between⟩, hw, h⟩ := Option.bind_eq_some_iff.1 h
      cases h
      obtain ⟨parts, hparts, rfl⟩ := rendersAll_of_walk ih hw
      exact ⟨.written id parts, .written ho hparts, rfl⟩
    · exact renders_of_shallow hv h

/-- The texts of a value are those of its renderings. -/
theorem text_iff {value : Value} {text : String} : (∃ fuel, s.text? fuel value = some text) ↔
    ∃ r after, s.Renders [] value r after ∧ r.text = text := by
  constructor
  · rintro ⟨fuel, h⟩
    obtain ⟨⟨text, after⟩, htext, rfl⟩ := Option.map_eq_some_iff.1 h
    obtain ⟨r, hr, rfl⟩ := renders_of_textInside htext
    exact ⟨r, after, hr, rfl⟩
  · rintro ⟨r, after, hr, rfl⟩
    exact ⟨r.height, congrArg (Option.map Prod.fst) (hr.textInside (Nat.le_refl _))⟩

/-! ## What a rendering leaves -/

mutual

theorem Renders.shows {opened after : List ListId} {value : Value} {r : Rendering} :
    s.Renders opened value r after → s.Shows value r
  | .plain hplain => .plain hplain
  | .dots _ => .dots
  | .written _ hparts => .written hparts.shows

theorem RendersAll.shows {opened after : List ListId} {values : List Value} {rs : List Rendering} :
    s.RendersAll opened values rs after → s.ShowsAll values rs
  | .nil => .nil
  | .cons hfirst hrest => .cons hfirst.shows hrest.shows

end

/-- The lists that are open after writing: those that were open before and have not occurred. -/
structure Leaves (opened : List ListId) (met : List ListId) (after : List ListId) : Prop where
  nodup : after.Nodup
  mem (id : ListId) : id ∈ after ↔ id ∈ opened ∧ id ∉ met

mutual

/-- An open list that occurs is closed by that, and no list is open any more when it has been written out. -/
theorem Renders.leaves {opened after : List ListId} {value : Value} {r : Rendering} :
    s.Renders opened value r after → opened.Nodup → Leaves opened r.lists after
  | .plain _, hd => ⟨hd, fun id => by simp [Rendering.lists]⟩
  | .dots _, hd => ⟨hd.erase _, fun id => by simp [Rendering.lists, hd.mem_erase_iff, and_comm]⟩
  | .written ho hparts, hd => by
    have hinner := hparts.leaves (List.nodup_cons.2 ⟨ho, hd⟩)
    refine ⟨hinner.nodup.erase _, fun id => ?_⟩
    rw [hinner.nodup.mem_erase_iff, hinner.mem, List.mem_cons, Rendering.lists, List.mem_cons]
    tauto

theorem RendersAll.leaves {opened after : List ListId} {values : List Value} {rs : List Rendering} :
    s.RendersAll opened values rs after → opened.Nodup → Leaves opened (Rendering.listsOfAll rs) after
  | .nil, hd => ⟨hd, fun id => by simp [Rendering.listsOfAll]⟩
  | .cons hfirst hrest, hd => by
    have hbetween := hfirst.leaves hd
    have hafter := hrest.leaves hbetween.nodup
    refine ⟨hafter.nodup, fun id => ?_⟩
    rw [hafter.mem, hbetween.mem, Rendering.listsOfAll, List.mem_append]
    tauto

end

end Store

end LoxLang
