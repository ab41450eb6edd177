import DesignCoupling.EntitySet
import Mathlib.Data.List.Nodup
import Mathlib.Data.Set.Operations

/-!
# Sets in order

How a set holds its entities means nothing, and neither does the order in which it is listed for
display, as long as no two of its entities share a name. The operations on sets ask of entities only
whether they are the same, so they commute with every injective map.
-/

namespace DesignCoupling.EntitySet

theorem pairwise_byName (es : List Entity) : (byName es).Pairwise fun a b => a.name ≤ b.name := by
  have hsorted := @List.pairwise_mergeSort Entity (fun a b => decide (a.name ≤ b.name))
    (fun a b c hab hbc =>
      decide_eq_true (String.le_trans (of_decide_eq_true hab) (of_decide_eq_true hbc)))
    (fun a b => by simpa using String.le_total a.name b.name) es
  exact hsorted.imp fun h => of_decide_eq_true h

theorem byName_eq_of_perm {es es' : List Entity} (hperm : es.Perm es')
    (hnames : ∀ a ∈ es, ∀ b ∈ es, a.name = b.name → a = b) : byName es = byName es' := by
  refine List.Perm.eq_of_pairwise ?_ (pairwise_byName es) (pairwise_byName es') ?_
  · intro a b ha hb hab hba
    have ha : a ∈ es := List.mem_mergeSort.1 ha
    have hb : b ∈ es := hperm.mem_iff.2 (List.mem_mergeSort.1 hb)
    exact hnames a ha b hb (String.le_antisymm hab hba)
  · exact (List.mergeSort_perm es _).trans (hperm.trans (List.mergeSort_perm es' _).symm)

variable {s t : EntitySet}

theorem perm_elems (h : ∀ x, x ∈ s ↔ x ∈ t) : s.elems.Perm t.elems :=
  (List.perm_ext_iff_of_nodup s.nodup t.nodup).2 h

theorem size_eq_of_mem_iff (h : ∀ x, x ∈ s ↔ x ∈ t) : s.size = t.size :=
  (perm_elems h).length_eq

theorem sorted_eq_of_mem_iff (h : ∀ x, x ∈ s ↔ x ∈ t)
    (hnames : ∀ a ∈ s, ∀ b ∈ s, a.name = b.name → a = b) : s.sorted = t.sorted :=
  byName_eq_of_perm (perm_elems h) hnames

section Images

variable {g : Entity → Entity} (hg : Function.Injective g)

/-- The image of a set under an injective map, in the order of the set. -/
def map (s : EntitySet) : EntitySet := ⟨s.elems.map g, s.nodup.map hg⟩

theorem mem_map {x : Entity} : x ∈ s.map hg ↔ ∃ y ∈ s, g y = x := List.mem_map

theorem setOf_map (s : EntitySet) : {x | x ∈ s.map hg} = g '' {x | x ∈ s} := by
  ext x
  exact mem_map hg

@[simp] theorem size_map (s : EntitySet) : (s.map hg).size = s.size := List.length_map _

theorem insert_map (s : EntitySet) (e : Entity) : (s.map hg).insert (g e) = (s.insert e).map hg := by
  by_cases he : e ∈ s.elems
  · have hge : g e ∈ (s.map hg).elems := List.mem_map_of_mem he
    rw [insert, insert, dif_pos he, dif_pos hge]
  · have hge : g e ∉ (s.map hg).elems := fun h => he ((List.mem_map_of_injective hg).1 h)
    rw [insert, insert, dif_neg he, dif_neg hge]
    rfl

theorem union_map (s : EntitySet) (es : List Entity) :
    (s.map hg).union (es.map g) = (s.union es).map hg := by
  induction es generalizing s with
  | nil => rfl
  | cons e es ih =>
      have hstep : ((s.map hg).union ((e :: es).map g)) =
          ((s.map hg).insert (g e)).union (es.map g) := rfl
      rw [hstep, insert_map, ih]
      rfl

theorem ofList_map (es : List Entity) : ofList (es.map g) = (ofList es).map hg :=
  union_map hg empty es

theorem filter_map {p q : Entity → Bool} (h : ∀ x, q (g x) = p x) (s : EntitySet) :
    (s.map hg).filter q = (s.filter p).map hg := by
  have hpq : q ∘ g = p := funext h
  simp only [filter, map, List.filter_map, hpq]

end Images

end DesignCoupling.EntitySet
