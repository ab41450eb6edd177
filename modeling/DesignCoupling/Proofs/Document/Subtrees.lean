import DesignCoupling.Proofs.Design.Representation
import DesignCoupling.Proofs.Document.Coupling
import DesignCoupling.Proofs.Search.Forest
import Mathlib.Combinatorics.Enumerative.DoubleCounting

/-!
# Contents in a loaded design

The records of a valid document form a forest, and the contents of an entity are listed as one lists
a tree: every record that names the entity as its container, in the order of the document, each
followed by its own contents. So an entity is listed once for each of its containers, near or far,
and nowhere else.
-/

namespace DesignCoupling

open Containment

namespace Design.Consistent

variable {d : Design}

theorem forest (hd : d.Consistent) (hacyclic : ∀ e ∈ d.entities, ¬ Inside d.get? e e) :
    Search.Forest d.provider.children d.entities.toList where
  closed _ _ := d.provider.mem_of_children
  distinct a _ := hd.nodup_children a
  apart a ha b hb c hca hcb := by
    have hparent := ((hd.mem_children_iff (Array.mem_toList_iff.1 ha)).1 hca).2
    have hparent' := ((hd.mem_children_iff (Array.mem_toList_iff.1 hb)).1 hcb).2
    exact hd.eq_of_name_eq (Array.mem_toList_iff.1 ha) (Array.mem_toList_iff.1 hb)
      (Option.some.inj (hparent.symm.trans hparent'))
  acyclic a ha hcycle := by
    have hmem := Array.mem_toList_iff.1 ha
    exact hacyclic a hmem ((hd.transGen_children_iff hmem).1 hcycle).2

end Design.Consistent

namespace Document

variable {doc : Document} {d : Design}

/-- The records that name an entity as their container, in order. -/
def children (doc : Document) (e : Entity) : List Entity :=
  doc.entities.filter fun c => c.parent = some e.name

namespace Shows

theorem children_eq (h : Shows d doc.entities [] doc.usages) (e : Entity) :
    d.provider.children e = doc.children e := by
  have hchildren : ∀ c ∈ d.provider.children e, c ∈ d.entities :=
    fun c hc => Array.mem_toList_iff.1 (d.provider.mem_of_children hc)
  have hrecords : ∀ c ∈ doc.children e, c ∈ d.entities :=
    fun c hc => h.mem_entities.2 (List.mem_of_mem_filter hc)
  have hnames : (d.provider.children e).map Entity.name = (doc.children e).map Entity.name :=
    h.contents e.name
  rw [← h.consistent.filterMap_get?_names hchildren, hnames,
    h.consistent.filterMap_get?_names hrecords]

theorem forest (h : Shows d doc.entities [] doc.usages) (hwell : doc.WellFormed) :
    Search.Forest d.provider.children d.provider.entities := by
  apply h.consistent.forest
  intro e he
  rw [h.get?_eq hwell.distinct]
  exact hwell.acyclic e (h.mem_entities.1 he)

theorem descendants_eq (h : Shows d doc.entities [] doc.usages) (hwell : doc.WellFormed)
    {e : Entity} (he : e ∈ doc.entities) :
    d.provider.descendants e = (doc.children e).flatMap fun c => c :: d.provider.descendants c := by
  rw [← h.children_eq]
  exact (h.forest hwell).listing_eq (Array.mem_toList_iff.2 (h.mem_entities.2 he))

theorem mem_descendants_iff (h : Shows d doc.entities [] doc.usages) (hwell : doc.WellFormed)
    {e x : Entity} (he : e ∈ doc.entities) :
    x ∈ d.provider.descendants e ↔ x ∈ doc.entities ∧ doc.Inside x e := by
  rw [h.consistent.mem_descendants_iff (h.mem_entities.2 he), h.get?_eq hwell.distinct,
    h.mem_entities]
  refine and_iff_right_of_imp ?_
  rintro ⟨hx, hinside⟩ rfl
  exact hwell.acyclic x hx hinside

end Shows

theorem Inside.mem {x a : Entity} (h : doc.Inside x a) : a ∈ doc.entities := by
  obtain ⟨_, _, hup⟩ := Relation.TransGen.tail'_iff.1 h
  obtain ⟨_, _, hfind⟩ := container_eq_some_iff.1 hup
  exact (mem_of_entity? hfind).1

/-- Counted from above or from below, the pairs of an entity and one of its containers are as
many. -/
theorem Shows.sum_length_descendants (h : Shows d doc.entities [] doc.usages)
    (hwell : doc.WellFormed) :
    (doc.entities.map fun e => (d.provider.descendants e).length).sum =
      (doc.entities.map fun x => {a | doc.Inside x a}.ncard).sum := by
  classical
  have hdistinct : doc.entities.Nodup := .of_map _ hwell.distinct
  have hbelow : ∀ e ∈ doc.entities.toFinset, (d.provider.descendants e).length =
      (doc.entities.toFinset.bipartiteBelow doc.Inside e).card := by
    intro e he
    rw [← List.toFinset_card_of_nodup (d.provider.nodup_descendants e)]
    congr 1
    ext x
    rw [List.mem_toFinset, h.mem_descendants_iff hwell (List.mem_toFinset.1 he),
      Finset.mem_bipartiteBelow, List.mem_toFinset]
  have habove : ∀ x ∈ doc.entities.toFinset, {a | doc.Inside x a}.ncard =
      (doc.entities.toFinset.bipartiteAbove doc.Inside x).card := by
    intro x _
    rw [← Set.ncard_coe_finset]
    congr 1
    ext a
    rw [Set.mem_ofPred_eq, Finset.mem_coe, Finset.mem_bipartiteAbove, List.mem_toFinset]
    exact ⟨fun hinside => ⟨hinside.mem, hinside⟩, And.right⟩
  rw [← List.sum_toFinset _ hdistinct, ← List.sum_toFinset _ hdistinct,
    Finset.sum_congr rfl hbelow, Finset.sum_congr rfl habove]
  exact (Finset.sum_card_bipartiteAbove_eq_sum_card_bipartiteBelow doc.Inside).symm

/-- In the design of a valid document the contents of an entity are listed as a tree is: every
record that names the entity, in the order of the document, followed by its own contents. The loop
that lists them passes over nothing, neither as met before nor as the entity itself. Every entity is
listed once for each entity that it lies inside and for no other, so that all the listings together
are as long as there are pairs of an entity and one that it lies inside. -/
theorem descendants_as_tree (doc : Document) (hvalid : doc.validate = .ok ()) :
    ∃ d, doc.toDesign = .ok d ∧ d.provider.entities = doc.entities ∧
      (∀ e ∈ doc.entities, d.provider.descendants e =
        (doc.children e).flatMap fun c => c :: d.provider.descendants c) ∧
      (∀ e ∈ doc.entities,
        Search.Turns d.provider.children e ⟨[], d.provider.children e⟩
          ⟨d.provider.descendants e, []⟩ ∧
        ∀ s, Search.Turns d.provider.children e ⟨[], d.provider.children e⟩ s →
          ∀ c rest, s.pending = c :: rest → c ≠ e ∧ c ∉ s.met) ∧
      (∀ e ∈ doc.entities, ∀ x ∈ doc.entities,
        (doc.Inside x e → (d.provider.descendants e).count x = 1) ∧
        (¬ doc.Inside x e → x ∉ d.provider.descendants e)) ∧
      (doc.entities.map fun e => (d.provider.descendants e).length).sum =
        (doc.entities.map fun x => {a | doc.Inside x a}.ncard).sum := by
  have hwell := WellFormed.of_validate hvalid
  obtain ⟨d, hd, h⟩ := hwell.shows_toDesign
  have hends : ∀ e, Search.Turns d.provider.children e ⟨[], d.provider.children e⟩
      ⟨d.provider.descendants e, []⟩ := by
    intro e
    simpa using (d.provider.preorder_descendants e).turns []
  have hunmet : ∀ e ∈ doc.entities, ∀ s,
      Search.Turns d.provider.children e ⟨[], d.provider.children e⟩ s →
        ∀ c rest, s.pending = c :: rest → c ≠ e ∧ c ∉ s.met := by
    intro e he s hturns c rest hs
    have hmem : e ∈ d.provider.entities := Array.mem_toList_iff.2 (h.mem_entities.2 he)
    exact not_or.1 ((h.forest hwell).unmet_of_turns hmem hturns hs)
  refine ⟨d, hd, h.entities_eq, fun e he => h.descendants_eq hwell he,
    fun e he => ⟨hends e, hunmet e he⟩, ?_, h.sum_length_descendants hwell⟩
  intro e he x hx
  constructor
  · intro hinside
    exact List.count_eq_one_of_mem (d.provider.nodup_descendants e)
      ((h.mem_descendants_iff hwell he).2 ⟨hx, hinside⟩)
  · intro hout hmem
    exact hout ((h.mem_descendants_iff hwell he).1 hmem).2

/-- A package with a package and a class in it, of which the class and its method are declared before
their containers. -/
def scatteredTree : Document where
  name := none
  entities := [⟨"m", .method, some "c"⟩, ⟨"q", .package, some "p"⟩, ⟨"c", .classDecl, some "p"⟩,
    ⟨"p", .package, none⟩, ⟨"f", .field, some "c"⟩]
  usages := []

/-- The contents of the package are the inner package, the class, and the two members behind the
class. In all there are six pairs of an entity and one that it lies inside. -/
theorem descendants_scatteredTree :
    scatteredTree.validate = .ok () ∧ ∃ d p q c m f, scatteredTree.toDesign = .ok d ∧
      scatteredTree.entities = [m, q, c, p, f] ∧ d.provider.descendants p = [q, c, m, f] ∧
      d.provider.descendants c = [m, f] ∧ (d.provider.descendants p).count f = 1 ∧
      p ∉ d.provider.descendants p ∧
      (scatteredTree.entities.map fun x => {a | scatteredTree.Inside x a}.ncard).sum = 6 := by
  let p : Entity := ⟨"p", .package, none⟩
  let q : Entity := ⟨"q", .package, some "p"⟩
  let c : Entity := ⟨"c", .classDecl, some "p"⟩
  let m : Entity := ⟨"m", .method, some "c"⟩
  let f : Entity := ⟨"f", .field, some "c"⟩
  have hvalid : scatteredTree.validate = .ok () := by cbv
  have hpchildren : scatteredTree.children p = [q, c] := by decide
  have hcchildren : scatteredTree.children c = [m, f] := by decide
  have hleaf : ∀ e ∈ [q, m, f], scatteredTree.children e = [] := by decide
  have hfc : container scatteredTree.entity? f = some c := by decide
  have hcp : container scatteredTree.entity? c = some p := by decide
  have hpout : ¬ scatteredTree.Inside p p := fun hinside =>
    Containment.Inside.parent_ne_none hinside rfl
  obtain ⟨d, hd, _, htree, _, hplaces, hsum⟩ := descendants_as_tree scatteredTree hvalid
  have hq : d.provider.descendants q = [] := by rw [htree q (by decide), hleaf q (by simp)]; rfl
  have hm : d.provider.descendants m = [] := by rw [htree m (by decide), hleaf m (by simp)]; rfl
  have hf : d.provider.descendants f = [] := by rw [htree f (by decide), hleaf f (by simp)]; rfl
  have hc : d.provider.descendants c = [m, f] := by
    rw [htree c (by decide), hcchildren]
    simp [hm, hf]
  have hp : d.provider.descendants p = [q, c, m, f] := by
    rw [htree p (by decide), hpchildren]
    simp [hq, hc]
  refine ⟨hvalid, d, p, q, c, m, f, hd, rfl, hp, hc, ?_, ?_, ?_⟩
  · exact (hplaces p (by decide) f (by decide)).1 (.head hfc (.single hcp))
  · exact (hplaces p (by decide) p (by decide)).2 hpout
  · rw [← hsum]
    change ([m, q, c, p, f].map fun e => (d.provider.descendants e).length).sum = 6
    simp [hm, hq, hc, hp, hf]

end Document

end DesignCoupling
