import DesignCoupling.Coupling
import DesignCoupling.Proofs.Search.Reach
import Mathlib.Data.Set.Insert

/-!
# Aggregation

The contents of an entity are what can be reached through children. Aggregation unites direct sets
over the contents, and the direct set of a class looks into the contents of that class again. All
of this collapses to one pass over the contents, whether or not the answers of the provider fit
together.
-/

namespace DesignCoupling.Provider

variable {P : Provider}

/-- The contents of an entity are the others that can be reached through children. -/
theorem mem_descendants_iff {e m : Entity} :
    m ∈ P.descendants e ↔
      m ≠ e ∧ Relation.TransGen (fun a b => b ∈ P.children a) e m :=
  Search.mem_walk_without_iff fun _ _ => P.mem_of_children

theorem mem_descendants_trans {e m x : Entity} (hm : m ∈ P.descendants e)
    (hx : x ∈ P.descendants m) : x = e ∨ x ∈ P.descendants e := by
  by_cases hxe : x = e
  · exact .inl hxe
  · right
    have hem := (mem_descendants_iff.1 hm).2
    have hmx := (mem_descendants_iff.1 hx).2
    exact mem_descendants_iff.2 ⟨hxe, hem.trans hmx⟩

/-- An entity with all that it contains. -/
def subtree (P : Provider) (e : Entity) : List Entity := e :: P.descendants e

theorem mem_subtree {e m : Entity} : m ∈ P.subtree e ↔ m = e ∨ m ∈ P.descendants e :=
  List.mem_cons

theorem outside_subtree_iff {e x : Entity} :
    x ∉ P.subtree e ∧ some x ≠ P.enclosingClass e ↔
      x ≠ e ∧ some x ≠ P.enclosingClass e ∧ x ∉ P.descendants e := by
  rw [mem_subtree, not_or, and_assoc, and_comm (a := x ∉ _)]

theorem mem_endpoints {e x : Entity} :
    x ∈ P.endpoints e ↔ ∃ y, (y ∈ P.usedBy e ∨ y ∈ P.usersOf e) ∧ P.unit y = x := by
  simp only [endpoints, List.mem_map, List.mem_append]

/-- The aggregated set in one pass over the entity and its contents. -/
theorem mem_related_iff_endpoints {e x : Entity} :
    x ∈ P.related e ↔
      (∃ m, (m = e ∨ m ∈ P.descendants e) ∧ x ∈ P.endpoints m ∧ some x ≠ P.enclosingClass m) ∧
        x ≠ e ∧ some x ≠ P.enclosingClass e ∧ x ∉ P.descendants e := by
  rw [mem_related]
  constructor
  · intro h
    rcases h with ⟨⟨m, hm, hx⟩, houtside⟩
    refine ⟨?_, houtside⟩
    obtain ⟨⟨k, hk, hendpoint⟩, hne, hown⟩ := (P.mem_directRelated).1 hx
    rcases hk with rfl | hk
    · exact ⟨k, hm, hendpoint, hown⟩
    · -- a member of a class among the contents is among the contents, and belongs to that class
      obtain ⟨_, hkm, hclass⟩ := (P.mem_members).1 hk
      refine ⟨k, ?_, hendpoint, ?_⟩
      · rcases hm with rfl | hm
        · exact .inr hkm
        · exact mem_descendants_trans hm hkm
      · rw [hclass]
        exact fun h => hne (Option.some.inj h)
  · intro h
    rcases h with ⟨⟨m, hm, hendpoint, hown⟩, hne, houtside⟩
    refine ⟨⟨m, hm, (P.mem_directRelated).2 ⟨⟨m, .inl rfl, hendpoint⟩, ?_, hown⟩⟩, hne, houtside⟩
    intro heq
    subst heq
    exact hm.elim hne houtside.2

/-- The aggregated set as a set: one pass over the usages of the entity and its contents, in which
a usage within the class of its near end is passed over, less the entity, the class around it and
its contents. -/
theorem setOf_related_eq (P : Provider) (e : Entity) :
    {x | x ∈ P.related e} =
      {x | ∃ m y, (m = e ∨ m ∈ P.descendants e) ∧ (y ∈ P.usedBy m ∨ y ∈ P.usersOf m) ∧
        some (P.unit y) ≠ P.enclosingClass m ∧ P.unit y = x} \
      ({e} ∪ {c | P.enclosingClass e = some c} ∪ {m | m ∈ P.descendants e}) := by
  ext x
  have houtside : x ∉ {e} ∪ {c | P.enclosingClass e = some c} ∪ {m | m ∈ P.descendants e} ↔
      x ≠ e ∧ some x ≠ P.enclosingClass e ∧ x ∉ P.descendants e := by
    simp only [Set.mem_union, Set.mem_singleton_iff, Set.mem_ofPred_eq, not_or, and_assoc, ne_eq,
      eq_comm (a := some x)]
  rw [Set.mem_sdiff, houtside, Set.mem_ofPred_eq, Set.mem_ofPred_eq, mem_related_iff_endpoints]
  apply and_congr_left
  intro _
  constructor
  · intro h
    rcases h with ⟨m, hm, hendpoint, hown⟩
    obtain ⟨y, hy, rfl⟩ := mem_endpoints.1 hendpoint
    exact ⟨m, y, hm, hy, hown, rfl⟩
  · intro h
    rcases h with ⟨m, y, hm, hy, hown, rfl⟩
    exact ⟨m, hm, mem_endpoints.2 ⟨y, hy, rfl⟩, hown⟩

end DesignCoupling.Provider
