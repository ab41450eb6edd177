import DesignCoupling.Proofs.Design.Consistency
import DesignCoupling.Proofs.Search.Reach

/-!
# Containment cycles

The search for cycles runs over the numbers of the entities. In a consistent design a path of
numbers is a path through children, and a path through children is a way up by container names read
backwards, so the search finds a cycle exactly if some entity lies inside itself.
-/

namespace DesignCoupling.Design

open Containment

variable {d : Design}

theorem mem_contained {i j : Nat} :
    j ∈ d.contained i ↔ ∃ l ∈ d.links, l.kind = .contains ∧ l.source = i ∧ l.target = j := by
  simp only [contained, List.mem_filterMap, Array.mem_toList_iff, Option.ite_none_right_eq_some,
    Option.some.injEq, and_assoc]

namespace Consistent

private theorem exists_contained_iff (hd : d.Consistent) {i : Nat} {a b : Entity}
    (ha : d.entities[i]? = some a) :
    b ∈ d.provider.children a ↔ ∃ j ∈ d.contained i, d.entities[j]? = some b := by
  have hmem : a ∈ d.entities := Array.mem_of_getElem? ha
  change b ∈ d.neighbours (d.targets .contains) a.name ↔ _
  rw [hd.mem_neighbours_targets hmem]
  constructor
  · intro h
    rcases h with ⟨l, hl, hkind, hsource, htarget⟩
    exact ⟨l.target, mem_contained.2 ⟨l, hl, hkind, hd.getElem?_inj hsource ha, rfl⟩, htarget⟩
  · intro h
    rcases h with ⟨j, hj, hb⟩
    obtain ⟨l, hl, hkind, rfl, rfl⟩ := mem_contained.1 hj
    exact ⟨l, hl, hkind, ha, hb⟩

private theorem contained_lt_size (hd : d.Consistent) {i j : Nat} (h : j ∈ d.contained i) :
    j < d.entities.size := by
  obtain ⟨l, hl, _, _, rfl⟩ := mem_contained.1 h
  exact (hd.bounds l hl).2

private theorem transGen_contained_iff (hd : d.Consistent) {i j : Nat} {a b : Entity}
    (ha : d.entities[i]? = some a) (hb : d.entities[j]? = some b) :
    Relation.TransGen (fun m n => n ∈ d.contained m) i j ↔
      Relation.TransGen (fun e c => c ∈ d.provider.children e) a b := by
  constructor
  · intro h
    induction h generalizing b with
    | single hj => exact .single ((hd.exists_contained_iff ha).2 ⟨_, hj, hb⟩)
    | @tail m j _ hj ih =>
        obtain ⟨l, hl, _, rfl, _⟩ := mem_contained.1 hj
        have hlt := (hd.bounds l hl).1
        have hm : d.entities[l.source]? = some d.entities[l.source] := Array.getElem?_eq_getElem hlt
        exact .tail (ih hm) ((hd.exists_contained_iff hm).2 ⟨_, hj, hb⟩)
  · intro h
    induction h generalizing j with
    | single hc =>
        obtain ⟨k, hk, hkb⟩ := (hd.exists_contained_iff ha).1 hc
        exact .single (hd.getElem?_inj hkb hb ▸ hk)
    | @tail e b hae hc ih =>
        obtain ⟨m, hm⟩ : ∃ m, d.entities[m]? = some e := by
          obtain ⟨r, _, hr⟩ := Relation.TransGen.tail'_iff.1 hae
          exact Array.mem_iff_getElem?.1 (Array.mem_toList_iff.1 (d.provider.mem_of_children hr))
        obtain ⟨k, hk, hkb⟩ := (hd.exists_contained_iff hm).1 hc
        exact .tail (ih hm) (hd.getElem?_inj hkb hb ▸ hk)

theorem hasContainmentCycles_iff_contained (hd : d.Consistent) :
    d.hasContainmentCycles = true ↔
      ∃ i < d.entities.size, Relation.TransGen (fun m n => n ∈ d.contained m) i i := by
  have hclosed : ∀ i, ∀ j ∈ d.contained i, j ∈ List.range d.entities.size :=
    fun i j hj => List.mem_range.2 (hd.contained_lt_size hj)
  simp only [hasContainmentCycles, List.any_eq_true, List.mem_range, decide_eq_true_eq,
    Search.mem_walk_next_iff hclosed]

/-- A cycle is found exactly if some entity lies inside itself. -/
theorem hasContainmentCycles_iff (hd : d.Consistent) :
    d.hasContainmentCycles = true ↔ ∃ e ∈ d.entities, Inside d.get? e e := by
  rw [hd.hasContainmentCycles_iff_contained]
  constructor
  · intro h
    rcases h with ⟨i, hi, hcycle⟩
    have ha : d.entities[i]? = some d.entities[i] := Array.getElem?_eq_getElem hi
    have hmem := Array.mem_of_getElem? ha
    have hdown := (hd.transGen_contained_iff ha ha).1 hcycle
    exact ⟨_, hmem, ((hd.transGen_children_iff hmem).1 hdown).2⟩
  · intro h
    rcases h with ⟨e, he, hinside⟩
    obtain ⟨i, hi⟩ := Array.mem_iff_getElem?.1 he
    have hdown := (hd.transGen_children_iff he).2 ⟨he, hinside⟩
    exact ⟨i, (Array.getElem?_eq_some_iff.1 hi).1, (hd.transGen_contained_iff hi hi).2 hdown⟩

end Consistent

end DesignCoupling.Design
