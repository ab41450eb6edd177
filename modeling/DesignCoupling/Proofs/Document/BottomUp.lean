import DesignCoupling.Proofs.Design.UnitGraph
import DesignCoupling.Proofs.Document.Assembly

/-!
# Aggregation from the children

The aggregated set of an entity is gathered over all that the entity contains, and it can also be
put together from the aggregated sets of its children. These have left out what lies inside the
child, which the entity leaves out as well, and the class that the child belongs to. That class is
the entity, or the class that the entity belongs to, or lies around a package that belongs to no
class: only such a package can miss something, and nothing but the nearest class around it.
-/

namespace DesignCoupling

namespace Provider

variable {P : Provider} {e c m x : Entity}

theorem mem_subtree_of_child (hc : c ∈ P.children e) (hm : m ∈ P.subtree c) :
    m ∈ P.subtree e := by
  have hbelow : Relation.TransGen (fun a b => b ∈ P.children a) e m := by
    rcases mem_subtree.1 hm with rfl | hm
    · exact .single hc
    · exact .head hc (mem_descendants_iff.1 hm).2
  rw [mem_subtree]
  by_cases hme : m = e
  · exact .inl hme
  · exact .inr (mem_descendants_iff.2 ⟨hme, hbelow⟩)

theorem exists_child_of_mem_descendants (hm : m ∈ P.descendants e) :
    ∃ c ∈ P.children e, m ∈ P.subtree c := by
  obtain ⟨c, hc, hbelow⟩ := Relation.TransGen.head'_iff.1 (mem_descendants_iff.1 hm).2
  refine ⟨c, hc, ?_⟩
  rw [mem_subtree]
  rcases Relation.reflTransGen_iff_eq_or_transGen.1 hbelow with rfl | hbelow
  · exact .inl rfl
  · by_cases hmc : m = c
    · exact .inl hmc
    · exact .inr (mem_descendants_iff.2 ⟨hmc, hbelow⟩)

theorem mem_related_iff_subtree :
    x ∈ P.related e ↔
      (∃ m ∈ P.subtree e, x ∈ P.directRelated m) ∧
        x ∉ P.subtree e ∧ some x ≠ P.enclosingClass e := by
  rw [mem_related, outside_subtree_iff]
  simp only [mem_subtree]

theorem mem_related_of_child (hc : c ∈ P.children e) (hx : x ∈ P.related c)
    (houtside : x ∉ P.subtree e) (hown : some x ≠ P.enclosingClass e) : x ∈ P.related e := by
  obtain ⟨⟨m, hm, hdirect⟩, _⟩ := mem_related_iff_subtree.1 hx
  exact mem_related_iff_subtree.2 ⟨⟨m, mem_subtree_of_child hc hm, hdirect⟩, houtside, hown⟩

theorem directRelated_or_child_of_mem_related (hx : x ∈ P.related e) :
    x ∈ P.directRelated e ∨
      ∃ c ∈ P.children e, x ∈ P.related c ∨ P.enclosingClass c = some x := by
  obtain ⟨⟨m, hm, hdirect⟩, houtside, _⟩ := mem_related_iff_subtree.1 hx
  rcases mem_subtree.1 hm with rfl | hm
  · exact .inl hdirect
  · obtain ⟨c, hc, hmc⟩ := exists_child_of_mem_descendants hm
    refine .inr ⟨c, hc, ?_⟩
    by_cases hclass : P.enclosingClass c = some x
    · exact .inr hclass
    · left
      have houtsideChild : x ∉ P.subtree c := fun h => houtside (mem_subtree_of_child hc h)
      exact mem_related_iff_subtree.2 ⟨⟨m, hmc, hdirect⟩, houtsideChild, Ne.symm hclass⟩

/-- What the children are related to, with what the entity is related to directly, less the entity,
the class around it and its contents. -/
def gathered (P : Provider) (e : Entity) : Set Entity :=
  ({x | x ∈ P.directRelated e} ∪ {x | ∃ c ∈ P.children e, x ∈ P.related c}) \
    ({e} ∪ {c | P.enclosingClass e = some c} ∪ {m | m ∈ P.descendants e})

theorem mem_gathered :
    x ∈ P.gathered e ↔
      (x ∈ P.directRelated e ∨ ∃ c ∈ P.children e, x ∈ P.related c) ∧
        x ∉ P.subtree e ∧ some x ≠ P.enclosingClass e := by
  rw [mem_subtree]
  simp only [gathered, Set.mem_sdiff, Set.mem_union, Set.mem_ofPred_eq, Set.mem_singleton_iff]
  rw [eq_comm (a := P.enclosingClass e)]
  tauto

theorem gathered_subset_related : P.gathered e ⊆ {x | x ∈ P.related e} := by
  intro x hx
  obtain ⟨hdirect | ⟨c, hc, hrelated⟩, houtside, hown⟩ := mem_gathered.1 hx
  · exact mem_related_iff_subtree.2 ⟨⟨e, mem_subtree.2 (.inl rfl), hdirect⟩, houtside, hown⟩
  · exact mem_related_of_child hc hrelated houtside hown

end Provider

open Containment

namespace Design.Consistent

variable {d : Design} {e c x : Entity}

theorem eq_or_nearestClass_of_child (hd : d.Consistent) (he : e ∈ d.entities)
    (hc : c ∈ d.provider.children e) (hclass : d.provider.enclosingClass c = some x) :
    x = e ∨ e.kind ≠ .classDecl ∧ NearestClass d.get? e x := by
  have hup := ((hd.mem_children_iff_container he).1 hc).2
  cases (Provider.enclosingClass_eq_some_iff.1 hclass).2 with
  | here hx _ => exact .inl (Option.some.inj (hx.symm.trans hup))
  | above hr hkind hnearest =>
      obtain rfl := Option.some.inj (hr.symm.trans hup)
      exact .inr ⟨hkind, hnearest⟩

/-- What is lost on the way from the children is the nearest class around a package. -/
theorem mem_gathered_or_nearestClass (hd : d.Consistent) (he : e ∈ d.entities)
    (hx : x ∈ d.provider.related e) :
    x ∈ d.provider.gathered e ∨ e.kind = .package ∧ NearestClass d.get? e x := by
  obtain ⟨_, houtside, hown⟩ := Provider.mem_related_iff_subtree.1 hx
  rcases Provider.directRelated_or_child_of_mem_related hx with
    hdirect | ⟨c, hc, hrelated | hclass⟩
  · exact .inl (Provider.mem_gathered.2 ⟨.inl hdirect, houtside, hown⟩)
  · exact .inl (Provider.mem_gathered.2 ⟨.inr ⟨c, hc, hrelated⟩, houtside, hown⟩)
  · right
    have hne : x ≠ e := fun h => houtside (Provider.mem_subtree.2 (.inl h))
    obtain ⟨hkind, hnearest⟩ := (hd.eq_or_nearestClass_of_child he hc hclass).resolve_left hne
    have hloose : ¬ e.kind.isMember = true := fun hmember =>
      hown (Provider.enclosingClass_eq_some_iff.2 ⟨hmember, hnearest⟩).symm
    exact ⟨EntityKind.eq_package hkind hloose, hnearest⟩

end Design.Consistent

namespace Document

/-- In the design of a valid document the aggregated set of an entity is what is gathered from its
direct set and the aggregated sets of its children, unless the entity is a package below a class.
Such a package can miss the nearest class around it, and nothing else. -/
theorem related_from_children (doc : Document) (hvalid : doc.validate = .ok ()) :
    ∃ d, doc.toDesign = .ok d ∧ ∀ e ∈ d.entities,
      (¬ (e.kind = .package ∧
          ∃ c, Containment.Inside d.provider.lookup e c ∧ c.kind = .classDecl) →
        {x | x ∈ d.provider.related e} = d.provider.gathered e) ∧
      d.provider.gathered e ⊆ {x | x ∈ d.provider.related e} ∧
      ∀ x ∈ d.provider.related e,
        x ∈ d.provider.gathered e ∨ e.kind = .package ∧ NearestClass d.provider.lookup e x := by
  obtain ⟨d, hd, hshows⟩ := (WellFormed.of_validate hvalid).shows_toDesign
  refine ⟨d, hd, fun e he => ?_⟩
  have hlost : ∀ x ∈ d.provider.related e,
      x ∈ d.provider.gathered e ∨ e.kind = .package ∧ NearestClass d.provider.lookup e x :=
    fun x => hshows.consistent.mem_gathered_or_nearestClass he
  refine ⟨fun hbelow => ?_, Provider.gathered_subset_related, hlost⟩
  refine Set.Subset.antisymm (fun x hx => ?_) Provider.gathered_subset_related
  refine (hlost x hx).resolve_right fun hpackage => ?_
  exact hbelow ⟨hpackage.1, x, hpackage.2.inside, hpackage.2.kind_eq⟩

/-- A class in a package, with a method that uses a class outside and holds a class whose method uses
this method. -/
def localClass : Document where
  name := none
  entities := [⟨"p", .package, none⟩, ⟨"c", .classDecl, some "p"⟩, ⟨"m", .method, some "c"⟩,
    ⟨"i", .classDecl, some "m"⟩, ⟨"g", .method, some "i"⟩, ⟨"x", .classDecl, none⟩]
  usages := [⟨"m", "x"⟩, ⟨"g", "m"⟩]

/-- The package has no usages of its own. It is related to the class outside because the class in it
is, and to nothing else. -/
theorem related_localClass :
    localClass.validate = .ok () ∧ ∃ d p c x, localClass.toDesign = .ok d ∧ p ∈ d.entities ∧
      ¬ (p.kind = .package ∧
        ∃ c, Containment.Inside d.provider.lookup p c ∧ c.kind = .classDecl) ∧
      {y | y ∈ d.provider.related p} = d.provider.gathered p ∧ d.provider.children p = [c] ∧
      (d.provider.directRelated p).elems = [] ∧ (d.provider.related c).elems = [x] ∧
      d.provider.gathered p = {x} := by
  let p : Entity := ⟨"p", .package, none⟩
  let c : Entity := ⟨"c", .classDecl, some "p"⟩
  let x : Entity := ⟨"x", .classDecl, none⟩
  have hvalid : localClass.validate = .ok () := by cbv
  obtain ⟨d, hd, hgathered⟩ := related_from_children localClass hvalid
  obtain rfl := ofCalls_history hd
  have hp : p ∈ (Design.ofCalls localClass.history).entities := by
    have hentities : (Design.ofCalls localClass.history).entities.toList = localClass.entities := rfl
    rw [← Array.mem_toList_iff, hentities]
    decide
  have htop : ¬ (p.kind = .package ∧ ∃ c, Containment.Inside
      (Design.ofCalls localClass.history).provider.lookup p c ∧ c.kind = .classDecl) := by
    rintro ⟨_, c, hinside, _⟩
    exact hinside.parent_ne_none rfl
  have hrelated : ((Design.ofCalls localClass.history).provider.related p).elems = [x] := by cbv
  have hset := (hgathered p hp).1 htop
  refine ⟨hvalid, _, p, c, x, hd, hp, htop, hset, by cbv, by cbv, by cbv, ?_⟩
  rw [← hset]
  ext y
  simp [EntitySet.mem_def, hrelated]

end Document

end DesignCoupling
