import DesignCoupling.Proofs.Design.UnitGraph
import DesignCoupling.Proofs.EntitySet

/-!
# Designs that are alike

Two designs are alike when they hold the same entities and their usages join the same pairs of
different entities. Numbers, the order of links, their direction and how often they are repeated may
differ, and so may the usages of entities by themselves. Coupling is the same in both.
-/

namespace DesignCoupling.Design

open Containment

namespace Consistent

variable {d : Design}

theorem mem_of_mem_endpoints (hd : d.Consistent) {e x : Entity}
    (hx : x ∈ d.provider.endpoints e) : x ∈ d.entities := by
  obtain ⟨y, hy, hunit⟩ := Provider.mem_endpoints.1 hx
  have hmem : y ∈ d.entities := hy.elim mem_of_usedBy mem_of_usersOf
  exact hd.unit_mem hmem (Provider.unit_eq_iff.1 hunit)

theorem mem_of_mem_directRelated (hd : d.Consistent) {e x : Entity}
    (hx : x ∈ d.provider.directRelated e) : x ∈ d.entities := by
  obtain ⟨⟨m, _, hendpoint⟩, _⟩ := (d.provider.mem_directRelated).1 hx
  exact hd.mem_of_mem_endpoints hendpoint

theorem mem_of_mem_related (hd : d.Consistent) {e x : Entity} (hx : x ∈ d.provider.related e) :
    x ∈ d.entities := by
  obtain ⟨⟨m, _, hdirect⟩, _⟩ := (d.provider.mem_related).1 hx
  exact hd.mem_of_mem_directRelated hdirect

end Consistent

/-- The same entities, and the same pairs of different entities joined by usages. -/
structure Alike (d d' : Design) : Prop where
  left : d.Consistent
  right : d'.Consistent
  entities : ∀ e, e ∈ d.entities ↔ e ∈ d'.entities
  joined : ∀ u v, u ≠ v → (d.Joined u v ↔ d'.Joined u v)

namespace Alike

variable {d d' : Design}

theorem symm (h : Alike d d') : Alike d' d where
  left := h.right
  right := h.left
  entities e := (h.entities e).symm
  joined u v hne := (h.joined u v hne).symm

theorem perm_entities (h : Alike d d') : d.entities.toList.Perm d'.entities.toList := by
  rw [List.perm_ext_iff_of_nodup h.left.nodup_names.of_map h.right.nodup_names.of_map]
  simpa only [Array.mem_toList_iff] using h.entities

theorem get?_eq (h : Alike d d') : d.get? = d'.get? := by
  funext name
  apply Option.ext
  intro e
  rw [h.left.get?_eq_some_iff, h.right.get?_eq_some_iff, h.entities]

theorem enclosingClass_eq (h : Alike d d') (e : Entity) :
    d.provider.enclosingClass e = d'.provider.enclosingClass e :=
  Provider.enclosingClass_congr h.get?_eq e

theorem unit_eq (h : Alike d d') (e : Entity) : d.provider.unit e = d'.provider.unit e :=
  Provider.unit_congr h.get?_eq e

private theorem directRelated_subset (h : Alike d d') {e x : Entity} (he : e ∈ d.entities)
    (hx : x ∈ d.provider.directRelated e) : x ∈ d'.provider.directRelated e := by
  rw [h.left.mem_directRelated_iff he] at hx
  rw [h.right.mem_directRelated_iff ((h.entities e).1 he)]
  simp only [← h.unit_eq, ← h.enclosingClass_eq]
  obtain ⟨⟨u, v, hjoined, hu, hv⟩, hne, hown⟩ := hx
  -- a usage of an entity by itself has both ends in one unit, so it couples nothing directly
  have huv : u ≠ v := by
    rintro rfl
    rcases hu with rfl | hu
    · exact (Provider.eq_or_enclosingClass_of_unit hv).elim hne hown
    · exact hne (hv.symm.trans hu.symm)
  exact ⟨⟨u, v, (h.joined u v huv).1 hjoined, hu, hv⟩, hne, hown⟩

/-- Inside an entity a usage of something by itself leads to the class that it belongs to or back to
the inside, so it does not count in the aggregated set either. -/
private theorem related_subset (h : Alike d d') {e x : Entity} (he : e ∈ d.entities)
    (hx : x ∈ d.provider.related e) : x ∈ d'.provider.related e := by
  rw [h.left.mem_related_iff he] at hx
  rw [h.right.mem_related_iff ((h.entities e).1 he), ← h.get?_eq]
  obtain ⟨⟨m, y, hjoined, hm, hstands, hclass⟩, hne, houtside, hown⟩ := hx
  have hmy : m ≠ y := by
    rintro rfl
    rcases hstands with hbelongs | ⟨_, rfl⟩
    · exact hclass hbelongs
    · exact hm.elim hne houtside
  exact ⟨⟨m, y, (h.joined m y hmy).1 hjoined, hm, hstands, hclass⟩, hne, houtside, hown⟩

theorem mem_directRelated_iff (h : Alike d d') {e : Entity} (he : e ∈ d.entities) (x : Entity) :
    x ∈ d.provider.directRelated e ↔ x ∈ d'.provider.directRelated e :=
  ⟨h.directRelated_subset he, h.symm.directRelated_subset ((h.entities e).1 he)⟩

theorem mem_related_iff (h : Alike d d') {e : Entity} (he : e ∈ d.entities) (x : Entity) :
    x ∈ d.provider.related e ↔ x ∈ d'.provider.related e :=
  ⟨h.related_subset he, h.symm.related_subset ((h.entities e).1 he)⟩

theorem efferentCoupling_eq (h : Alike d d') {e : Entity} (he : e ∈ d.entities) :
    d.provider.efferentCoupling e = d'.provider.efferentCoupling e :=
  EntitySet.size_eq_of_mem_iff (h.mem_related_iff he)

theorem byName_ofKind_eq (h : Alike d d') (kind : EntityKind) :
    EntitySet.byName (d.ofKind kind) = EntitySet.byName (d'.ofKind kind) := by
  apply EntitySet.byName_eq_of_perm (h.perm_entities.filter _)
  intro a ha b hb hname
  have ha := Array.mem_toList_iff.1 (List.mem_filter.1 ha).1
  have hb := Array.mem_toList_iff.1 (List.mem_filter.1 hb).1
  exact h.left.eq_of_name_eq ha hb hname

theorem sorted_directRelated_eq (h : Alike d d') {e : Entity} (he : e ∈ d.entities) :
    (d.provider.directRelated e).sorted = (d'.provider.directRelated e).sorted :=
  EntitySet.sorted_eq_of_mem_iff (h.mem_directRelated_iff he) fun _ ha _ hb hname =>
    h.left.eq_of_name_eq (h.left.mem_of_mem_directRelated ha) (h.left.mem_of_mem_directRelated hb)
      hname

theorem sorted_related_eq (h : Alike d d') {e : Entity} (he : e ∈ d.entities) :
    (d.provider.related e).sorted = (d'.provider.related e).sorted :=
  EntitySet.sorted_eq_of_mem_iff (h.mem_related_iff he) fun _ ha _ hb hname =>
    h.left.eq_of_name_eq (h.left.mem_of_mem_related ha) (h.left.mem_of_mem_related hb) hname

end Alike

end DesignCoupling.Design
