import Mathlib.Data.List.Perm.Subperm
import Mathlib.Data.List.Range
import Mathlib.Logic.Relation
import LoxLang.Proofs.Rendering.Occurrence

/-!
# Lists in circles

Where lists hold no circle, no list occurs inside itself: each one is written out at each of its occurrences,
with no more fuel than there are lists. In circles the rule of dots decides, and where it calls for a
rendering without end there is no text.
-/

namespace LoxLang

namespace Store

/-- The inner list is an item of the outer one. -/
def Holds (s : Store) (outer inner : ListId) : Prop := .list inner ∈ s.items outer

/-- No list that is reached from the value through items of lists reaches itself in this way. -/
def CircleFree (s : Store) (value : Value) : Prop :=
  ∀ id, value = .list id → ∀ inner, Relation.ReflTransGen s.Holds id inner →
    ¬ Relation.TransGen s.Holds inner inner

/-- The text of a value with every list written out, if the fuel lasts. -/
def unguardedText? (s : Store) : Nat → Value → Option String
  | fuel, .list id =>
    match fuel with
    | 0 => none
    | fuel + 1 => ((s.items id).toList.mapM (s.unguardedText? fuel)).map listText
  | _, value => some value.plainText

section
variable {s : Store} {opened : List ListId}

theorem unguardedText_plain (fuel : Nat) {value : Value} (h : ∀ id, value ≠ .list id) :
    s.unguardedText? fuel value = some value.plainText := by
  cases value with
  | list id => exact absurd rfl (h id)
  | _ => cases fuel <;> rfl

theorem CircleFree.item {id : ListId} (h : s.CircleFree (.list id)) {value : Value}
    (hv : value ∈ s.items id) : s.CircleFree value := by
  rintro inner rfl deeper hreach
  exact h id rfl deeper (.head hv hreach)

/-- Writing the value changes nothing about the open lists, and no list is guarded on the way. -/
structure WrittenInFull (s : Store) (opened : List ListId) (value : Value) (r : Rendering) : Prop where
  renders : s.Renders opened value r opened
  unguarded : ∀ fuel ≥ r.height, s.unguardedText? fuel value = some r.text

/-- If all items can be written in full, so can all of them one after the other. -/
theorem exists_parts {bound : Nat} {values : List Value}
    (h : ∀ value ∈ values, ∃ r, s.WrittenInFull opened value r ∧ r.height ≤ bound) :
    ∃ rs, s.RendersAll opened values rs opened ∧ Rendering.greatestHeight rs ≤ bound ∧
      ∀ fuel ≥ Rendering.greatestHeight rs,
        values.mapM (s.unguardedText? fuel) = some (Rendering.texts rs) := by
  induction values with
  | nil => exact ⟨[], .nil, Nat.zero_le _, fun _ _ => rfl⟩
  | cons value values ih =>
    obtain ⟨r, hr, hheight⟩ := h value List.mem_cons_self
    obtain ⟨rs, hrs, hheights, htexts⟩ := ih fun v hv => h v (List.mem_cons_of_mem _ hv)
    refine ⟨r :: rs, .cons hr.renders hrs, Nat.max_le.2 ⟨hheight, hheights⟩, fun fuel hfuel => ?_⟩
    have hfirst := hr.unguarded fuel (Nat.le_trans (Nat.le_max_left _ _) hfuel)
    have hrest := htexts fuel (Nat.le_trans (Nat.le_max_right _ _) hfuel)
    rw [List.mapM_cons, hfirst, hrest]
    rfl

/-- If all items of a list can be written in full, so can the list. -/
theorem exists_written {bound : Nat} {id : ListId} (ho : id ∉ opened)
    (h : ∀ value ∈ s.items id, ∃ r, s.WrittenInFull (id :: opened) value r ∧ r.height ≤ bound) :
    ∃ r, s.WrittenInFull opened (.list id) r ∧ r.height ≤ bound + 1 := by
  obtain ⟨parts, hparts, hheight, htexts⟩ := exists_parts fun v hv => h v (Array.mem_toList_iff.1 hv)
  refine ⟨.written id parts, ⟨?_, fun fuel hfuel => ?_⟩, Nat.succ_le_succ hheight⟩
  · have hwritten := Renders.written ho hparts
    rwa [List.erase_cons_head] at hwritten
  · obtain ⟨fuel, rfl⟩ : ∃ rest, fuel = rest + 1 := Nat.exists_eq_add_of_le' (Nat.le_of_add_left_le hfuel)
    rw [unguardedText?, htexts fuel (Nat.le_of_succ_le_succ hfuel)]
    rfl

/-- There are no more open lists than lists. -/
theorem length_le_of_nodup {ids : List ListId} (hd : ids.Nodup) (hlt : ∀ id ∈ ids, id < s.lists.size) :
    ids.length ≤ s.lists.size := by
  have hsub : ids ⊆ List.range s.lists.size := fun id hid => List.mem_range.2 (hlt id hid)
  simpa using (hd.subperm hsub).length_le

theorem lt_size_of_item {id : ListId} {value : Value} (h : value ∈ s.items id) : id < s.lists.size := by
  by_contra hid
  rw [items, Array.getElem?_eq_none (Nat.not_lt.1 hid)] at h
  exact Array.not_mem_empty value h

/-- Without circles, none of the open lists around a value is met again. The induction is on the number of
lists that are not open. -/
theorem CircleFree.writtenInFull {spare : Nat} {value : Value} (h : s.CircleFree value)
    (hspare : s.lists.size ≤ opened.length + spare) (hd : opened.Nodup)
    (hlt : ∀ id ∈ opened, id < s.lists.size)
    (hreach : ∀ id, value = .list id → ∀ outer ∈ opened, Relation.TransGen s.Holds outer id) :
    ∃ r, s.WrittenInFull opened value r ∧ r.height ≤ spare + 1 := by
  induction spare using Nat.strong_induction_on generalizing opened value with
  | _ spare ih =>
    by_cases hlist : ∃ id, value = .list id
    · obtain ⟨id, rfl⟩ := hlist
      have ho : id ∉ opened := fun ho => h id rfl id .refl (hreach id rfl id ho)
      refine exists_written ho fun value hv => ?_
      have hid := lt_size_of_item hv
      have hd' : (id :: opened).Nodup := List.nodup_cons.2 ⟨ho, hd⟩
      have hlt' : ∀ other ∈ id :: opened, other < s.lists.size := List.forall_mem_cons.2 ⟨hid, hlt⟩
      have hlength := length_le_of_nodup hd' hlt'
      rw [List.length_cons] at hlength
      obtain ⟨spare, rfl⟩ : ∃ rest, spare = rest + 1 := Nat.exists_eq_add_of_le' (by omega)
      have hspare' : s.lists.size ≤ (id :: opened).length + spare := by
        rw [List.length_cons]
        omega
      refine ih spare (Nat.lt_succ_self spare) (h.item hv) hspare' hd' hlt' ?_
      rintro inner rfl outer houter
      rcases List.mem_cons.1 houter with rfl | houter
      · exact .single hv
      · exact (hreach id rfl outer houter).tail hv
    · have hplain : ∀ id, value ≠ .list id := fun id he => hlist ⟨id, he⟩
      exact ⟨.plain value, ⟨.plain hplain, fun fuel _ => unguardedText_plain fuel hplain⟩, Nat.zero_le _⟩

end

end Store

/-- A value has a text exactly if it has a finite rendering with dots where they belong: for those occurrences
of a list before which the same list occurred last around them. This rendering gives the text. Lists that
were open before are closed if they occur, so that nothing is left open if nothing was open. Where no list
reaches itself, there is a text, with all lists written out. -/
theorem dots_where_last_occurrence_encloses (s : Store) (value : Value) :
    (∀ fuel text after, s.textInside fuel [] value = some (text, after) → after = []) ∧
    (∀ fuel opened text after, opened.Nodup → s.textInside fuel opened value = some (text, after) →
      ∃ r, s.Shows value r ∧ r.text = text ∧ ∀ id, id ∈ after ↔ id ∈ opened ∧ id ∉ r.lists) ∧
    (∀ text, (∃ fuel, s.text? fuel value = some text) ↔ ∃ r, s.Shows value r ∧ r.text = text ∧
      ∀ before o rest, r.occurrences [] = before ++ o :: rest →
        (o.dotted = true ↔ ∃ e, latest? o.list before = some e ∧ e.Encloses o)) ∧
    (s.CircleFree value → ∃ text, ∀ fuel > s.lists.size,
      s.text? fuel value = some text ∧ s.unguardedText? fuel value = some text) := by
  refine ⟨?_, ?_, ?_, ?_⟩
  · intro fuel text after h
    obtain ⟨r, hr, -⟩ := Store.renders_of_textInside h
    have hleaves := hr.leaves List.nodup_nil
    exact List.eq_nil_iff_forall_not_mem.2 fun id hid => List.not_mem_nil ((hleaves.mem id).1 hid).1
  · intro fuel opened text after hd h
    obtain ⟨r, hr, rfl⟩ := Store.renders_of_textInside h
    exact ⟨r, hr.shows, rfl, (hr.leaves hd).mem⟩
  · intro text
    rw [Store.text_iff]
    constructor
    · rintro ⟨r, after, hr, rfl⟩
      exact ⟨r, hr.shows, rfl, dotsBehind_iff.1 (hr.dotsBehind facing_start)⟩
    · rintro ⟨r, hr, rfl, hd⟩
      obtain ⟨after, hr⟩ := hr.renders facing_start (dotsBehind_iff.2 hd)
      exact ⟨r, after, hr, rfl⟩
  · intro h
    have hspare : s.lists.size ≤ ([] : List ListId).length + s.lists.size := by simp
    obtain ⟨r, hr, hheight⟩ := h.writtenInFull hspare List.nodup_nil (List.forall_mem_nil _)
      fun _ _ => List.forall_mem_nil _
    refine ⟨r.text, fun fuel hfuel => ⟨?_, hr.unguarded fuel (Nat.le_trans hheight hfuel)⟩⟩
    exact congrArg (Option.map Prod.fst) (hr.renders.textInside (Nat.le_trans hheight hfuel))

/-- A list that holds another one twice: it is written out at both places. -/
theorem dots_where_last_occurrence_encloses_shared :
    let s : Store := { lists := #[#[.int 1], #[.list 0, .list 0]] }
    s.CircleFree (.list 1) ∧ (∃ text, ∀ fuel > 2, s.text? fuel (.list 1) = some text ∧
      s.unguardedText? fuel (.list 1) = some text) ∧ s.text? 3 (.list 1) = some "[[1],[1]]" := by
  intro s
  have hinward (outer inner : ListId) (h : s.Holds outer inner) : inner < outer := by
    match outer with
    | 0 => simp [Store.Holds, Store.items, s] at h
    | 1 =>
      obtain rfl : inner = 0 := by simpa [Store.Holds, Store.items, s] using h
      exact Nat.zero_lt_one
    | outer + 2 => simp [Store.Holds, Store.items, s] at h
  have hdown (outer inner : ListId) (h : Relation.TransGen s.Holds outer inner) : inner < outer := by
    induction h with
    | single h => exact hinward _ _ h
    | tail _ h ih => exact Nat.lt_trans (hinward _ _ h) ih
  have hcircle : s.CircleFree (.list 1) := fun _ _ inner _ h => Nat.lt_irrefl inner (hdown inner inner h)
  exact ⟨hcircle, (dots_where_last_occurrence_encloses s (.list 1)).2.2.2 hcircle, by decide⟩

example : Store.text? { lists := #[#[.int 1, .list 0]] } 2 (.list 0) = some "[1,[...]]" := by decide

/-- A list that holds itself twice. The dots for the first occurrence close it, and the second one is written
out again. -/
def doubledStore : Store := { lists := #[#[.list 0, .list 0]] }

theorem doubledStore_text (fuel : Nat) : doubledStore.textInside fuel [] (.list 0) = none := by
  induction fuel with
  | zero => rfl
  | succ fuel ih =>
    have hfirst : doubledStore.textInside fuel [0] (.list 0) = some (insideItself, []) :=
      Store.textInside_opened doubledStore fuel rfl
    change (walk (doubledStore.textInside fuel) [0] [.list 0, .list 0]).bind _ = none
    simp [walk, hfirst, ih]

/-- Two lists, the first of which holds the second one twice, and the second one the first. -/
def crossedStore : Store := { lists := #[#[.list 1, .list 1], #[.list 0]] }

/-- What is written for the second list: its second occurrence inside itself is written out. -/
def crossedRendering : Rendering := .written 1 [.written 0 [.dots 1, .written 1 [.dots 0]]]

theorem crossedRendering_renders : crossedStore.Renders [] (.list 1) crossedRendering [] := by
  have hlast : crossedStore.Renders [1, 0] (.list 0) (.dots 0) [1] := .dots (by decide)
  have hagain : crossedStore.Renders [0] (.list 1) (.written 1 [.dots 0]) [] :=
    .written (by decide) (.cons hlast .nil)
  have hdots : crossedStore.Renders [0, 1] (.list 1) (.dots 1) [0] := .dots (by decide)
  have hheld : crossedStore.Renders [1] (.list 0) (.written 0 [.dots 1, .written 1 [.dots 0]]) [] :=
    .written (by decide) (.cons hdots (.cons hagain .nil))
  exact .written (by decide) (.cons hheld .nil)

/-- Not every value has a text, and a list that is written inside itself may be written out there. -/
theorem enclosed_list_may_be_written_out :
    (¬ ∀ (s : Store) (value : Value), ∃ fuel text, s.text? fuel value = some text) ∧
    crossedStore.text? 4 (.list 1) = some "[[[...],[[...]]]]" ∧
    ¬ ∀ (s : Store) (value : Value) (r : Rendering) (after : List ListId), s.Renders [] value r after →
      ∀ before o rest, r.occurrences [] = before ++ o :: rest →
        (o.dotted = true ↔ ∃ e ∈ before, e.list = o.list ∧ e.Encloses o) := by
  refine ⟨fun h => ?_, by decide, fun h => ?_⟩
  · obtain ⟨fuel, text, htext⟩ := h doubledStore (.list 0)
    rw [Store.text?, doubledStore_text] at htext
    cases htext
  · have hlast := h crossedStore (.list 1) crossedRendering [] crossedRendering_renders
      [⟨[], 1, false⟩, ⟨[0], 0, false⟩, ⟨[0, 0], 1, true⟩] ⟨[0, 1], 1, false⟩ [⟨[0, 1, 0], 0, true⟩] rfl
    exact absurd (hlast.2 ⟨_, List.mem_cons_self, rfl, List.nil_prefix⟩) Bool.false_ne_true

end LoxLang
