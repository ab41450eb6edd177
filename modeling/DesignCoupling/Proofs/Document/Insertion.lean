import DesignCoupling.Proofs.Document.Coupling

/-!
# One usage more

A usage can be put anywhere among the usages of a document. Between declared names it keeps a
document well formed, and nothing else is joined by it than its two ends.
-/

namespace DesignCoupling.Document

open Containment

/-- The document with one usage more, behind the first `i` of its usages. -/
def insertUsage (doc : Document) (i : Nat) (u : Usage) : Document :=
  { doc with usages := doc.usages.take i ++ u :: doc.usages.drop i }

variable {doc : Document} {i : Nat} {u : Usage}

@[simp] theorem mem_usages_insertUsage {w : Usage} :
    w ∈ (doc.insertUsage i u).usages ↔ w = u ∨ w ∈ doc.usages := by
  rw [insertUsage, List.mem_append, List.mem_cons, or_left_comm, ← List.mem_append,
    List.take_append_drop]

theorem WellFormed.insertUsage (h : doc.WellFormed) (hsource : u.source ∈ doc.names)
    (htarget : u.target ∈ doc.names) : (doc.insertUsage i u).WellFormed where
  distinct := h.distinct
  containers := h.containers
  endpoints := by
    intro w hw
    rcases mem_usages_insertUsage.1 hw with rfl | hw
    · exact ⟨hsource, htarget⟩
    · exact h.endpoints w hw
  acyclic := h.acyclic

theorem joined_insertUsage (hdistinct : doc.names.Nodup) {a b m y : Entity}
    (ha : a ∈ doc.entities) (hb : b ∈ doc.entities) :
    (doc.insertUsage i ⟨a.name, b.name⟩).Joined m y ↔
      doc.Joined m y ∨ m = a ∧ y = b ∨ m = b ∧ y = a := by
  have hsame : ∀ {r s : Entity}, r ∈ doc.entities → s ∈ doc.entities → r.name = s.name → r = s :=
    fun hr hs hname => List.inj_on_of_nodup_map hdistinct hr hs hname
  constructor
  · intro h
    rcases h with ⟨hm, hy, w, hw, hends⟩
    rcases mem_usages_insertUsage.1 hw with rfl | hw
    · rcases hends with ⟨hma, hyb⟩ | ⟨hya, hmb⟩
      · exact .inr (.inl ⟨hsame hm ha hma.symm, hsame hy hb hyb.symm⟩)
      · exact .inr (.inr ⟨hsame hm hb hmb.symm, hsame hy ha hya.symm⟩)
    · exact .inl ⟨hm, hy, w, hw, hends⟩
  · intro h
    rcases h with ⟨hm, hy, w, hw, hends⟩ | ⟨rfl, rfl⟩ | ⟨rfl, rfl⟩
    · exact ⟨hm, hy, w, mem_usages_insertUsage.2 (.inr hw), hends⟩
    · exact ⟨ha, hb, _, mem_usages_insertUsage.2 (.inl rfl), .inl ⟨rfl, rfl⟩⟩
    · exact ⟨hb, ha, _, mem_usages_insertUsage.2 (.inl rfl), .inr ⟨rfl, rfl⟩⟩

end DesignCoupling.Document
