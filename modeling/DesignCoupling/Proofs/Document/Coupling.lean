import DesignCoupling.Proofs.Design.UnitGraph
import DesignCoupling.Proofs.Document.Assembly
import Mathlib.Data.Set.Card

/-!
# Coupling in a document

What an entity is coupled to can be read off the records and usages of a document: no design is
built for it and nothing is searched. The analysis of the design that is loaded from a valid
document finds exactly this.
-/

namespace DesignCoupling

namespace Document

open Containment

variable {doc : Document}

/-- A usage of the document has these two records at its ends, whichever of them uses the other. -/
def Joined (doc : Document) (m y : Entity) : Prop :=
  m ∈ doc.entities ∧ y ∈ doc.entities ∧ ∃ u ∈ doc.usages,
    u.source = m.name ∧ u.target = y.name ∨ u.source = y.name ∧ u.target = m.name

/-- By the records alone, `e` is coupled to `x`: a usage joins `e` or something inside `e` to
something that `x` is the unit of. Neither the contents of `e` nor the classes that the two inner
ends belong to count. -/
def CoupledTo (doc : Document) (e x : Entity) : Prop :=
  (∃ m y, doc.Joined m y ∧ (m = e ∨ doc.Inside m e) ∧ StandsFor doc.entity? y x ∧
    ¬ BelongsTo doc.entity? m x) ∧
  x ≠ e ∧ ¬ doc.Inside x e ∧ ¬ BelongsTo doc.entity? e x

theorem mem_usedNames {us : List Usage} {source target : String} :
    target ∈ usedNames us source ↔ ∃ u ∈ us, u.source = source ∧ u.target = target := by
  simp only [usedNames, List.mem_map, List.mem_filter, decide_eq_true_eq, and_assoc]

namespace Shows

variable {d : Design}

theorem mem_entities (h : Shows d doc.entities [] doc.usages) {e : Entity} :
    e ∈ d.entities ↔ e ∈ doc.entities := by
  rw [← h.entities_eq, Array.mem_toList_iff]

theorem leads_uses_iff (h : Shows d doc.entities [] doc.usages) {a b : Entity}
    (ha : a ∈ doc.entities) (hb : b ∈ doc.entities) :
    d.Leads .uses a b ↔ ∃ u ∈ doc.usages, u.source = a.name ∧ u.target = b.name := by
  rw [← h.consistent.mem_neighbours_targets (h.mem_entities.2 ha),
    ← h.consistent.name_mem_outgoing_iff (h.mem_entities.2 hb), h.used, mem_usedNames]

theorem joined_iff (h : Shows d doc.entities [] doc.usages) {m y : Entity} :
    d.Joined m y ↔ doc.Joined m y := by
  unfold Design.Joined Joined
  constructor
  · intro hjoined
    have hm : m ∈ doc.entities := h.mem_entities.1 (Design.Joined.mem hjoined)
    have hy : y ∈ doc.entities := h.mem_entities.1 (Design.Joined.mem (Or.symm hjoined))
    rw [h.leads_uses_iff hm hy, h.leads_uses_iff hy hm] at hjoined
    simp only [hm, hy, true_and, and_or_left, exists_or]
    exact hjoined
  · intro hjoined
    rcases hjoined with ⟨hm, hy, u, hu, hends⟩
    rw [h.leads_uses_iff hm hy, h.leads_uses_iff hy hm]
    exact hends.imp (fun hends => ⟨u, hu, hends⟩) fun hends => ⟨u, hu, hends⟩

theorem mem_related_iff (h : Shows d doc.entities [] doc.usages) (hdistinct : doc.names.Nodup)
    {e x : Entity} (he : e ∈ doc.entities) :
    x ∈ d.provider.related e ↔ doc.CoupledTo e x := by
  rw [h.consistent.mem_related_iff (h.mem_entities.2 he), h.get?_eq hdistinct]
  simp only [h.joined_iff]
  rfl

end Shows

end Document

end DesignCoupling
