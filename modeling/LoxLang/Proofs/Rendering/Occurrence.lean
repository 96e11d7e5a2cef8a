import Mathlib.Data.List.Infix
import LoxLang.Proofs.Rendering

/-!
# Where lists occur in a rendering

The occurrences of lists in a rendering, in the order in which they are written, each with its place: the
numbers of the items on the way to it. An occurrence encloses another one if its place is the beginning of
the other place.

Dots are written for an occurrence exactly if the last occurrence of the same list before it is one that
encloses it. So the first occurrence of a list inside itself gets dots, and the ones behind it do not. This
decides the whole rendering.
-/

namespace LoxLang

/-- One occurrence of a list in a rendering. -/
structure ListOccurrence where
  place : List Nat
  list : ListId
  dotted : Bool
deriving DecidableEq

/-- The second occurrence lies within the first one. -/
def ListOccurrence.Encloses (e o : ListOccurrence) : Prop := e.place <+: o.place

instance (e o : ListOccurrence) : Decidable (e.Encloses o) := inferInstanceAs (Decidable (e.place <+: o.place))

namespace Rendering

mutual

/-- The occurrences of lists in a rendering that stands at a place. -/
def occurrences (place : List Nat) : Rendering → List ListOccurrence
  | plain _ => []
  | dots id => [⟨place, id, true⟩]
  | written id parts => ⟨place, id, false⟩ :: occurrencesFrom place 0 parts

/-- The occurrences in the items of the list at a place, from the item with this number on. -/
def occurrencesFrom (place : List Nat) : Nat → List Rendering → List ListOccurrence
  | _, [] => []
  | i, r :: rest => r.occurrences (place ++ [i]) ++ occurrencesFrom place (i + 1) rest

end

mutual

theorem occurrences_lists (place : List Nat) : (r : Rendering) →
    (r.occurrences place).map ListOccurrence.list = r.lists
  | plain _ => rfl
  | dots _ => rfl
  | written id parts => congrArg (id :: ·) (occurrencesFrom_lists place 0 parts)

theorem occurrencesFrom_lists (place : List Nat) : (i : Nat) → (rs : List Rendering) →
    (occurrencesFrom place i rs).map ListOccurrence.list = listsOfAll rs
  | _, [] => rfl
  | i, r :: rest => by
    rw [occurrencesFrom, listsOfAll, List.map_append, occurrences_lists, occurrencesFrom_lists]

end

mutual

theorem occurrences_within {place : List Nat} : (r : Rendering) →
    ∀ o ∈ r.occurrences place, place <+: o.place
  | plain _, _, ho => nomatch ho
  | dots _, _, ho => by
    rw [List.mem_singleton.1 ho]
  | written _ parts, o, ho => by
    rcases List.mem_cons.1 ho with rfl | ho
    · exact List.prefix_rfl
    · exact occurrencesFrom_within parts o ho

theorem occurrencesFrom_within {place : List Nat} {i : Nat} : (rs : List Rendering) →
    ∀ o ∈ occurrencesFrom place i rs, place <+: o.place
  | [], _, ho => nomatch ho
  | r :: rest, o, ho => by
    rcases List.mem_append.1 ho with ho | ho
    · exact (List.prefix_append place [i]).trans (occurrences_within r o ho)
    · exact occurrencesFrom_within rest o ho

end

end Rendering

/-! ## The last occurrence -/

/-- The last occurrence of a list among these. -/
def latest? (id : ListId) (os : List ListOccurrence) : Option ListOccurrence := os.reverse.find? (·.list = id)

section
variable {id : ListId} {before os : List ListOccurrence} {o : ListOccurrence}

theorem latest_append : latest? id (before ++ os) = (latest? id os).or (latest? id before) := by
  unfold latest?
  rw [List.reverse_append, List.find?_append]

theorem latest_self : latest? o.list (before ++ [o]) = some o := by
  simp [latest?]

theorem latest_other (h : o.list ≠ id) : latest? id (before ++ [o]) = latest? id before := by
  simp [latest?, h]

theorem latest_eq_none (h : id ∉ os.map ListOccurrence.list) : latest? id os = none := by
  unfold latest?
  rw [List.find?_eq_none]
  intro o ho he
  exact h (List.mem_map.2 ⟨o, List.mem_reverse.1 ho, of_decide_eq_true he⟩)

theorem exists_latest (h : id ∈ os.map ListOccurrence.list) : ∃ o ∈ os, latest? id os = some o := by
  obtain ⟨o, ho, rfl⟩ := List.mem_map.1 h
  have hsome : (latest? o.list os).isSome := by
    rw [latest?, List.find?_isSome]
    exact ⟨o, List.mem_reverse.2 ho, decide_eq_true rfl⟩
  obtain ⟨found, hfound⟩ := Option.isSome_iff_exists.1 hsome
  exact ⟨found, List.mem_reverse.1 (List.mem_of_find?_eq_some hfound), hfound⟩

theorem latest_mem (h : latest? id os = some o) : o ∈ os ∧ o.list = id := by
  have hlist := List.find?_some h
  exact ⟨List.mem_reverse.1 (List.mem_of_find?_eq_some h), of_decide_eq_true hlist⟩

end

/-! ## Dots -/

/-- The last occurrence of the same list before it encloses the occurrence. -/
def ListOccurrence.Returns (before : List ListOccurrence) (o : ListOccurrence) : Prop :=
  ∃ e, latest? o.list before = some e ∧ e.Encloses o

/-- Behind the ones before, dots stand for the occurrences that return to an open list and for no others. -/
def DotsBehind : List ListOccurrence → List ListOccurrence → Prop
  | _, [] => True
  | before, o :: rest => (o.dotted = true ↔ o.Returns before) ∧ DotsBehind (before ++ [o]) rest

theorem dotsBehind_append {before xs ys : List ListOccurrence} :
    DotsBehind before (xs ++ ys) ↔ DotsBehind before xs ∧ DotsBehind (before ++ xs) ys := by
  induction xs generalizing before with
  | nil => simp [DotsBehind]
  | cons o xs ih => simp only [List.cons_append, DotsBehind, ih, and_assoc, List.append_assoc,
      List.nil_append]

theorem dotsBehind_iff {before os : List ListOccurrence} : DotsBehind before os ↔
    ∀ xs o ys, os = xs ++ o :: ys → (o.dotted = true ↔ o.Returns (before ++ xs)) := by
  constructor
  · rintro h xs o ys rfl
    exact (dotsBehind_append.1 h).2.1
  · intro h
    induction os generalizing before with
    | nil => trivial
    | cons o rest ih =>
      refine ⟨?_, ih fun xs other ys he => ?_⟩
      · simpa using h [] o rest rfl
      · simpa using h (o :: xs) other ys (by rw [he]; rfl)

/-! ## What is open at a place -/

/-- At a place that stands behind the occurrences before, the open lists are those whose last occurrence
lies around it. -/
structure Facing (before : List ListOccurrence) (place : List Nat) (opened : List ListId) : Prop where
  nodup : opened.Nodup
  fresh : ∀ e ∈ before, ¬ place <+: e.place
  opened (id : ListId) : id ∈ opened ↔ ∃ e, latest? id before = some e ∧ e.place <+: place

/-- The same among the items of the list at a place, in front of the item with this number. -/
structure Among (before : List ListOccurrence) (place : List Nat) (i : Nat) (opened : List ListId) : Prop where
  nodup : opened.Nodup
  fresh : ∀ e ∈ before, ∀ j ≥ i, ¬ place ++ [j] <+: e.place
  opened (id : ListId) : id ∈ opened ↔ ∃ e, latest? id before = some e ∧ e.place <+: place

theorem facing_start : Facing [] [] [] :=
  ⟨List.nodup_nil, List.forall_mem_nil _, fun id => by simp [latest?]⟩

section
variable {before : List ListOccurrence} {place : List Nat} {i : Nat} {opened after : List ListId}

theorem Facing.iff_returns (h : Facing before place opened) (id : ListId) (dotted : Bool) :
    id ∈ opened ↔ ListOccurrence.Returns before ⟨place, id, dotted⟩ := h.opened id

theorem Among.item (h : Among before place i opened) : Facing before (place ++ [i]) opened := by
  refine ⟨h.nodup, fun e he => h.fresh e he i (Nat.le_refl i), fun id => ?_⟩
  rw [h.opened]
  refine exists_congr fun e => and_congr_right fun he => ?_
  have hfresh := h.fresh e (latest_mem he).1 i (Nat.le_refl i)
  rw [List.prefix_concat_iff]
  exact ⟨.inr, fun hor => hor.resolve_left fun heq => hfresh (heq ▸ List.prefix_rfl)⟩

theorem Facing.enter (h : Facing before place opened) {id : ListId} (ho : id ∉ opened) :
    Among (before ++ [⟨place, id, false⟩]) place 0 (id :: opened) := by
  refine ⟨List.nodup_cons.2 ⟨ho, h.nodup⟩, fun e he j _ hp => ?_, fun other => ?_⟩
  · rcases List.mem_append.1 he with he | he
    · exact h.fresh e he ((List.prefix_append place [j]).trans hp)
    · rw [List.mem_singleton.1 he] at hp
      have hlength := hp.length_le
      simp only [List.length_append, List.length_singleton] at hlength
      omega
  · by_cases hid : other = id
    · subst hid
      have hlatest : latest? other (before ++ [⟨place, other, false⟩]) = some ⟨place, other, false⟩ :=
        latest_self (o := ⟨place, other, false⟩)
      exact iff_of_true List.mem_cons_self ⟨_, hlatest, List.prefix_rfl⟩
    · rw [List.mem_cons, or_iff_right hid, h.opened, latest_other (Ne.symm hid)]

/-- Behind an item, the lists that occurred in it are no longer open. -/
theorem Among.next (h : Among before place i opened) {r : Rendering}
    (hl : Store.Leaves opened r.lists after) :
    Among (before ++ r.occurrences (place ++ [i])) place (i + 1) after := by
  refine ⟨hl.nodup, fun e he j hj hp => ?_, fun id => ?_⟩
  · rcases List.mem_append.1 he with he | he
    · exact h.fresh e he j (Nat.le_of_succ_le hj) hp
    · have hsame := List.prefix_of_prefix_length_le hp (Rendering.occurrences_within r e he) (by simp)
      have hij := List.append_cancel_left (hsame.eq_of_length (by simp))
      cases hij
      omega
  · rw [hl.mem, h.opened, latest_append]
    by_cases hid : id ∈ r.lists
    · obtain ⟨e, he, hlatest⟩ := exists_latest ((Rendering.occurrences_lists (place ++ [i]) r).symm ▸ hid)
      have hlong := (Rendering.occurrences_within r e he).length_le
      have hout : ¬ e.place <+: place := fun hp => by
        have hshort := hp.length_le
        simp at hlong
        omega
      simp [hlatest, hid, hout]
    · have hnone := latest_eq_none ((Rendering.occurrences_lists (place ++ [i]) r).symm ▸ hid)
      simp [hnone, hid]

end

/-! ## The rule of dots -/

namespace Store
variable {s : Store}

mutual

theorem Renders.dotsBehind {opened after : List ListId} {value : Value} {r : Rendering}
    {before : List ListOccurrence} {place : List Nat} : s.Renders opened value r after →
      Facing before place opened → DotsBehind before (r.occurrences place)
  | .plain _, _ => trivial
  | .dots ho, h => ⟨iff_of_true rfl ((h.iff_returns _ _).1 ho), trivial⟩
  | .written ho hparts, h =>
    ⟨iff_of_false Bool.false_ne_true (mt (h.iff_returns _ _).2 ho), hparts.dotsBehind (h.enter ho)⟩

theorem RendersAll.dotsBehind {opened after : List ListId} {values : List Value} {rs : List Rendering}
    {before : List ListOccurrence} {place : List Nat} {i : Nat} : s.RendersAll opened values rs after →
      Among before place i opened → DotsBehind before (Rendering.occurrencesFrom place i rs)
  | .nil, _ => trivial
  | .cons hfirst hrest, h =>
    dotsBehind_append.2 ⟨hfirst.dotsBehind h.item, hrest.dotsBehind (h.next (hfirst.leaves h.nodup))⟩

end

mutual

/-- A rendering with dots at the right occurrences is the one that is written. -/
theorem Shows.renders {opened : List ListId} {value : Value} {r : Rendering} {before : List ListOccurrence}
    {place : List Nat} : s.Shows value r → Facing before place opened →
      DotsBehind before (r.occurrences place) → ∃ after, s.Renders opened value r after
  | .plain hplain, _, _ => ⟨opened, .plain hplain⟩
  | .dots, h, hd => ⟨_, .dots ((h.iff_returns _ _).2 (hd.1.1 rfl))⟩
  | .written hparts, h, hd => by
    have ho := mt (h.iff_returns _ false).1 fun hr => Bool.false_ne_true (hd.1.2 hr)
    obtain ⟨after, hall⟩ := hparts.renders (h.enter ho) hd.2
    exact ⟨_, .written ho hall⟩

theorem ShowsAll.renders {opened : List ListId} {values : List Value} {rs : List Rendering}
    {before : List ListOccurrence} {place : List Nat} {i : Nat} : s.ShowsAll values rs →
      Among before place i opened → DotsBehind before (Rendering.occurrencesFrom place i rs) →
        ∃ after, s.RendersAll opened values rs after
  | .nil, _, _ => ⟨opened, .nil⟩
  | .cons hfirst hrest, h, hd => by
    obtain ⟨hd, hdrest⟩ := dotsBehind_append.1 hd
    obtain ⟨between, hr⟩ := hfirst.renders h.item hd
    obtain ⟨after, hall⟩ := hrest.renders (h.next (hr.leaves h.nodup)) hdrest
    exact ⟨after, .cons hr hall⟩

end

end Store

end LoxLang
