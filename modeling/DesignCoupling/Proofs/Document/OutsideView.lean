import DesignCoupling.Proofs.Design.Likeness
import DesignCoupling.Proofs.Document.Assembly

/-!
# Containers seen from outside

The aggregated set of a container is gathered downwards, over all that it contains. Asked from
outside it is one direct set: a unit out there is in the aggregated set exactly if its own direct
set meets the container. For this the container has to hold the units of its contents, as a class
does, and everything that lies inside no class.
-/

namespace DesignCoupling

namespace Containment

/-- A class, or an entity that lies inside no class. -/
def HoldsUnits (find : String → Option Entity) (e : Entity) : Prop :=
  e.kind = .classDecl ∨ ∀ c, Inside find e c → c.kind ≠ .classDecl

namespace HoldsUnits

variable {find : String → Option Entity} {e : Entity}

theorem not_belongsTo (h : HoldsUnits find e) (c : Entity) : ¬ BelongsTo find e c := by
  intro hbelongs
  rcases h with hkind | hnone
  · have hmember := hbelongs.1
    simp [hkind, EntityKind.isMember] at hmember
  · exact hnone c hbelongs.2.inside hbelongs.2.kind_eq

theorem of_belongsTo (h : HoldsUnits find e) {m c : Entity} (hm : m = e ∨ Inside find m e)
    (hc : BelongsTo find m c) : c = e ∨ Inside find c e := by
  rcases hm with rfl | hinside
  · exact absurd hc (h.not_belongsTo c)
  rcases hc.2.of_inside hinside with hce | hce | ⟨hkind, hnearest⟩
  · exact .inr hce
  · exact .inl hce
  · exact absurd hnearest.kind_eq (h.resolve_left hkind c hnearest.inside)

end HoldsUnits

end Containment

open Containment

namespace Design.Consistent

variable {d : Design} {e k m : Entity}

theorem unit_mem_subtree (hd : d.Consistent) (he : e ∈ d.entities) (h : HoldsUnits d.get? e)
    (hm : m ∈ d.provider.subtree e) : d.provider.unit m ∈ d.provider.subtree e := by
  obtain ⟨hmem, hinside⟩ := (hd.mem_subtree_iff he).1 hm
  have hstands : StandsFor d.get? m (d.provider.unit m) := d.provider.standsFor_unit m
  rw [hd.mem_subtree_iff he]
  refine ⟨hd.unit_mem hmem hstands, ?_⟩
  rcases hstands with hbelongs | ⟨_, hself⟩
  · exact h.of_belongsTo hinside hbelongs
  · rw [hself]
    exact hinside

theorem mem_subtree_of_unit (hd : d.Consistent) (he : e ∈ d.entities) (hm : m ∈ d.entities)
    (h : d.provider.unit m ∈ d.provider.subtree e) : m ∈ d.provider.subtree e := by
  have hinside := ((hd.mem_subtree_iff he).1 h).2
  have hstands : StandsFor d.get? m (d.provider.unit m) := d.provider.standsFor_unit m
  rw [hd.mem_subtree_iff he]
  refine ⟨hm, ?_⟩
  rcases hstands with hbelongs | ⟨_, hself⟩
  · right
    have hmunit := hbelongs.2.inside
    rcases hinside with heq | hup
    · rwa [heq] at hmunit
    · exact hmunit.trans hup
  · rwa [hself] at hinside

/-- A usage across the border of a container joins the unit outside to something inside, and so
to the unit of this, which the container holds as well. -/
theorem mem_related_iff_directRelated (hd : d.Consistent) (he : e ∈ d.entities)
    (h : HoldsUnits d.get? e) (hk : k ∈ d.entities) (houtside : k ∉ d.provider.subtree e)
    (hunit : d.provider.enclosingClass k = none) :
    k ∈ d.provider.related e ↔ ∃ w ∈ d.provider.subtree e, w ∈ d.provider.directRelated k := by
  have hinner : ∀ {w}, w ∈ d.provider.subtree e → w ≠ k := fun hw heq => houtside (heq ▸ hw)
  rw [hd.mem_related_iff_joined he]
  constructor
  · intro hrelated
    rcases hrelated with ⟨⟨m, y, hjoined, hm, hy, _⟩, _⟩
    have hw := hd.unit_mem_subtree he h hm
    refine ⟨d.provider.unit m, hw, (hd.mem_directRelated_of_unit hk hunit).2 ⟨?_, hinner hw⟩⟩
    exact ⟨y, m, hjoined.symm, hy, rfl⟩
  · intro hdirect
    rcases hdirect with ⟨w, hw, hdirect⟩
    obtain ⟨⟨y, m, hjoined, hy, hmw⟩, _⟩ := (hd.mem_directRelated_of_unit hk hunit).1 hdirect
    have hm : m ∈ d.provider.subtree e := by
      apply hd.mem_subtree_of_unit he hjoined.symm.mem
      rw [hmw]
      exact hw
    have hown : some k ≠ d.provider.enclosingClass m := by
      intro hclass
      apply hinner hw
      rw [← hmw, Provider.unit, ← hclass, Option.getD_some]
    have htop : some k ≠ d.provider.enclosingClass e := fun hclass =>
      h.not_belongsTo k (Provider.enclosingClass_eq_some_iff.1 hclass.symm)
    exact ⟨⟨m, y, hjoined.symm, hm, hy, hown⟩, houtside, htop⟩

theorem outside_of_mem_related (hd : d.Consistent) (he : e ∈ d.entities)
    (hk : k ∈ d.provider.related e) :
    k ∈ d.entities ∧ k ∉ d.provider.subtree e ∧ d.provider.enclosingClass k = none := by
  obtain ⟨⟨_, y, _, _, hy, _⟩, houtside, _⟩ := (hd.mem_related_iff_joined he).1 hk
  refine ⟨hd.mem_of_mem_related hk, houtside, ?_⟩
  rw [← hy]
  exact Provider.enclosingClass_unit y

end Design.Consistent

namespace Document

/-- In the design of a valid document, a unit outside a container that holds its units is in the
aggregated set of the container exactly if the direct set of the unit meets the container. These
units are all of the aggregated set. -/
theorem related_seen_from_outside (doc : Document) (hvalid : doc.validate = .ok ()) :
    ∃ d, doc.toDesign = .ok d ∧ ∀ e ∈ d.entities, HoldsUnits d.provider.lookup e →
      (∀ k ∈ d.entities, k ∉ d.provider.subtree e → d.provider.enclosingClass k = none →
        (k ∈ d.provider.related e ↔
          ∃ w ∈ d.provider.subtree e, w ∈ d.provider.directRelated k)) ∧
      {k | k ∈ d.provider.related e} =
        {k | k ∈ d.entities ∧ k ∉ d.provider.subtree e ∧ d.provider.enclosingClass k = none ∧
          ∃ w ∈ d.provider.subtree e, w ∈ d.provider.directRelated k} := by
  obtain ⟨d, hd, hshows⟩ := (WellFormed.of_validate hvalid).shows_toDesign
  have hconsistent := hshows.consistent
  refine ⟨d, hd, fun e he hholds => ?_⟩
  have hseen : ∀ k ∈ d.entities, k ∉ d.provider.subtree e → d.provider.enclosingClass k = none →
      (k ∈ d.provider.related e ↔
        ∃ w ∈ d.provider.subtree e, w ∈ d.provider.directRelated k) :=
    fun k hk houtside hunit =>
      hconsistent.mem_related_iff_directRelated he hholds hk houtside hunit
  refine ⟨hseen, ?_⟩
  ext k
  constructor
  · intro hk
    obtain ⟨hmem, houtside, hunit⟩ := hconsistent.outside_of_mem_related he hk
    exact ⟨hmem, houtside, hunit, (hseen k hmem houtside hunit).1 hk⟩
  · intro hk
    rcases hk with ⟨hmem, houtside, hunit, hmeets⟩
    exact (hseen k hmem houtside hunit).2 hmeets

/-- A class within a method of a class in a package. A method of the inner class is used by a
method of a class outside. -/
def nestedClass : Document where
  name := none
  entities := [⟨"p", .package, none⟩, ⟨"c", .classDecl, some "p"⟩, ⟨"m", .method, some "c"⟩,
    ⟨"i", .classDecl, some "m"⟩, ⟨"g", .method, some "i"⟩, ⟨"x", .classDecl, none⟩,
    ⟨"f", .method, some "x"⟩]
  usages := [⟨"f", "g"⟩]

/-- The class outside finds the inner class in its direct set, so the package, four levels above the
end of the usage, is coupled to the class outside. -/
theorem related_nestedClass :
    nestedClass.validate = .ok () ∧ ∃ d p x, nestedClass.toDesign = .ok d ∧
      p ∈ d.entities ∧ HoldsUnits d.provider.lookup p ∧ x ∈ d.entities ∧
      x ∉ d.provider.subtree p ∧ d.provider.enclosingClass x = none ∧
      x ∈ d.provider.related p := by
  let p : Entity := ⟨"p", .package, none⟩
  let i : Entity := ⟨"i", .classDecl, some "m"⟩
  let x : Entity := ⟨"x", .classDecl, none⟩
  have hvalid : nestedClass.validate = .ok () := by cbv
  obtain ⟨d, hd, hseen⟩ := related_seen_from_outside nestedClass hvalid
  obtain rfl := ofCalls_history hd
  have hentities : (Design.ofCalls nestedClass.history).entities.toList = nestedClass.entities := rfl
  have hmem : ∀ e ∈ nestedClass.entities, e ∈ (Design.ofCalls nestedClass.history).entities := by
    intro e he
    rw [← hentities] at he
    exact Array.mem_toList_iff.1 he
  have hsubtree : (Design.ofCalls nestedClass.history).provider.subtree p =
      [p, ⟨"c", .classDecl, some "p"⟩, ⟨"m", .method, some "c"⟩, i, ⟨"g", .method, some "i"⟩] := by
    cbv
  have hdirect : ((Design.ofCalls nestedClass.history).provider.directRelated x).elems = [i] := by
    cbv
  have hholds : HoldsUnits (Design.ofCalls nestedClass.history).provider.lookup p := by
    right
    intro c hinside
    obtain ⟨_, hup, _⟩ := Relation.TransGen.head'_iff.1 hinside
    simp [container, p] at hup
  have houtside : x ∉ (Design.ofCalls nestedClass.history).provider.subtree p := by
    rw [hsubtree]
    decide
  have hunit : (Design.ofCalls nestedClass.history).provider.enclosingClass x = none :=
    Provider.enclosingClass_of_class rfl
  have hp := hmem p (by decide)
  have hx := hmem x (by decide)
  refine ⟨hvalid, _, p, x, hd, hp, hholds, hx, houtside, hunit, ?_⟩
  apply ((hseen p hp hholds).1 x hx houtside hunit).2
  refine ⟨i, ?_, ?_⟩
  · rw [hsubtree]
    decide
  · rw [EntitySet.mem_def, hdirect]
    decide

end Document

end DesignCoupling
