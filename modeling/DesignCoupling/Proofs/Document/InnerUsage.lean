import DesignCoupling.Proofs.Document.Insertion
import DesignCoupling.Proofs.EntitySet

/-!
# Usages inside a container

A usage between two entities of one container is internal to the container: both ends stand for
entities inside it, or for the class that the container itself belongs to. There is one exception.
A package below a class has no class of its own, while a method, field or relation inside the
package may belong to the class around it. A usage between such a member and something else inside
the package couples the package to that class, and to nothing more.
-/

namespace DesignCoupling.Document

open Containment

/-- A usage between two entities inside a package leads out to the nearest class around the package
when exactly one of them belongs to this class. -/
def EscapesTo (doc : Document) (e u v c : Entity) : Prop :=
  e.kind = .package ∧ NearestClass doc.entity? e c ∧
    (BelongsTo doc.entity? u c ↔ ¬ BelongsTo doc.entity? v c)

variable {doc : Document} {e u v x : Entity} {i : Nat}

private theorem belongsTo_of_outside {y : Entity} (hy : y = e ∨ doc.Inside y e)
    (hstands : StandsFor doc.entity? y x) (hne : x ≠ e) (houtside : ¬ doc.Inside x e)
    (hown : ¬ BelongsTo doc.entity? e x) :
    BelongsTo doc.entity? y x ∧ e.kind = .package ∧ NearestClass doc.entity? e x := by
  have hbelongs : BelongsTo doc.entity? y x := by
    rcases hstands with hbelongs | ⟨_, rfl⟩
    · exact hbelongs
    · exact absurd hy (not_or.2 ⟨hne, houtside⟩)
  have hinside : doc.Inside y e := by
    rcases hy with rfl | hinside
    · exact absurd hbelongs hown
    · exact hinside
  obtain ⟨hkind, hnearest⟩ :=
    ((hbelongs.2.of_inside hinside).resolve_left houtside).resolve_left hne
  have hloose : ¬ e.kind.isMember = true := fun hmember => hown ⟨hmember, hnearest⟩
  exact ⟨hbelongs, EntityKind.eq_package hkind hloose, hnearest⟩

/-- A usage inside an entity adds nothing to what the entity is coupled to, unless it escapes from a
package to the class around it. -/
theorem coupledTo_insertUsage (h : doc.WellFormed) (he : e ∈ doc.entities)
    (hu : u ∈ doc.entities) (hv : v ∈ doc.entities) (hue : u = e ∨ doc.Inside u e)
    (hve : v = e ∨ doc.Inside v e) :
    (doc.insertUsage i ⟨u.name, v.name⟩).CoupledTo e x ↔
      doc.CoupledTo e x ∨ doc.EscapesTo e u v x := by
  constructor
  · intro hcoupled
    rcases hcoupled with ⟨⟨m, y, hjoined, hm, hstands, hclass⟩, hne, houtside, hown⟩
    rcases (joined_insertUsage h.distinct hu hv).1 hjoined with hold | ⟨rfl, rfl⟩ | ⟨rfl, rfl⟩
    · exact .inl ⟨⟨m, y, hold, hm, hstands, hclass⟩, hne, houtside, hown⟩
    · obtain ⟨hy, hkind, hnearest⟩ := belongsTo_of_outside hve hstands hne houtside hown
      exact .inr ⟨hkind, hnearest, iff_of_false hclass (not_not.2 hy)⟩
    · obtain ⟨hy, hkind, hnearest⟩ := belongsTo_of_outside hue hstands hne houtside hown
      exact .inr ⟨hkind, hnearest, iff_of_true hy hclass⟩
  · intro hcoupled
    rcases hcoupled with ⟨⟨m, y, hjoined, hm, hstands, hclass⟩, hne, houtside, hown⟩ |
      ⟨hkind, hnearest, hone⟩
    · exact ⟨⟨m, y, (joined_insertUsage h.distinct hu hv).2 (.inl hjoined), hm, hstands, hclass⟩,
        hne, houtside, hown⟩
    · have hne : x ≠ e := by
        rintro rfl
        simp [hnearest.kind_eq] at hkind
      have houtside : ¬ doc.Inside x e :=
        fun hxe => h.acyclic e he (hnearest.inside.trans hxe)
      have hown : ¬ BelongsTo doc.entity? e x := by
        intro hbelongs
        have hmember := hbelongs.1
        simp [hkind, EntityKind.isMember] at hmember
      refine ⟨?_, hne, houtside, hown⟩
      by_cases hux : BelongsTo doc.entity? u x
      · exact ⟨v, u, (joined_insertUsage h.distinct hu hv).2 (.inr (.inr ⟨rfl, rfl⟩)), hve,
          .inl hux, hone.1 hux⟩
      · have hvx : BelongsTo doc.entity? v x := not_not.1 fun hvx => hux (hone.2 hvx)
        exact ⟨u, v, (joined_insertUsage h.distinct hu hv).2 (.inr (.inl ⟨rfl, rfl⟩)), hue,
          .inl hvx, hux⟩

/-- A usage between two entities of one container leaves the coupling of the container as it is,
whatever stands between them, unless it escapes from a package to the nearest class around it. Then
the package is coupled to this class, and otherwise to the same as before. -/
theorem related_insertUsage (doc : Document) (hvalid : doc.validate = .ok ()) :
    ∃ d, doc.toDesign = .ok d ∧ ∀ e ∈ doc.entities, ∀ u v,
      (u = e ∨ u ∈ d.provider.descendants e) → (v = e ∨ v ∈ d.provider.descendants e) → ∀ i,
      ∃ d', (doc.insertUsage i ⟨u.name, v.name⟩).toDesign = .ok d' ∧
        ((∀ c, ¬ doc.EscapesTo e u v c) →
          (∀ x, x ∈ d'.provider.related e ↔ x ∈ d.provider.related e) ∧
          d'.provider.efferentCoupling e = d.provider.efferentCoupling e) ∧
        ∀ x, x ∈ d'.provider.related e ↔
          x ∈ d.provider.related e ∨ doc.EscapesTo e u v x := by
  have hwell := WellFormed.of_validate hvalid
  obtain ⟨d, hd, hshows⟩ := hwell.shows_toDesign
  refine ⟨d, hd, ?_⟩
  intro e he u v hu hv i
  have hcontent : ∀ {m : Entity}, (m = e ∨ m ∈ d.provider.descendants e) →
      m ∈ doc.entities ∧ (m = e ∨ doc.Inside m e) := by
    intro m hm
    rcases hm with rfl | hm
    · exact ⟨he, .inl rfl⟩
    · obtain ⟨_, hmem, hinside⟩ :=
        (hshows.consistent.mem_descendants_iff (hshows.mem_entities.2 he)).1 hm
      rw [hshows.get?_eq hwell.distinct] at hinside
      exact ⟨hshows.mem_entities.1 hmem, .inr hinside⟩
  obtain ⟨hudoc, hue⟩ := hcontent hu
  obtain ⟨hvdoc, hve⟩ := hcontent hv
  have hwell' : (doc.insertUsage i ⟨u.name, v.name⟩).WellFormed :=
    hwell.insertUsage (List.mem_map_of_mem hudoc) (List.mem_map_of_mem hvdoc)
  obtain ⟨d', hd', hshows'⟩ := hwell'.shows_toDesign
  have hrelated : ∀ x, x ∈ d'.provider.related e ↔
      x ∈ d.provider.related e ∨ doc.EscapesTo e u v x := by
    intro x
    rw [hshows'.mem_related_iff hwell'.distinct he, hshows.mem_related_iff hwell.distinct he,
      coupledTo_insertUsage hwell he hudoc hvdoc hue hve]
  refine ⟨d', hd', fun hkept => ?_, hrelated⟩
  have hsame : ∀ x, x ∈ d'.provider.related e ↔ x ∈ d.provider.related e :=
    fun x => by rw [hrelated, or_iff_left (hkept x)]
  exact ⟨hsame, EntitySet.size_eq_of_mem_iff hsame⟩

/-- A class in a package, with a method that uses a class outside and one that uses nothing. -/
def sharedPackage : Document where
  name := none
  entities := [⟨"p", .package, none⟩, ⟨"c", .classDecl, some "p"⟩, ⟨"m", .method, some "c"⟩,
    ⟨"f", .method, some "c"⟩, ⟨"x", .classDecl, none⟩]
  usages := [⟨"m", "x"⟩]

/-- The package is still coupled to the class outside and to nothing else, after a usage between
the package and a method two levels below it. -/
theorem related_sharedPackage :
    sharedPackage.validate = .ok () ∧ ∃ d d' p f, sharedPackage.toDesign = .ok d ∧
      p ∈ sharedPackage.entities ∧ f ∈ d.provider.descendants p ∧
      (∀ c, ¬ sharedPackage.EscapesTo p f p c) ∧
      (sharedPackage.insertUsage 1 ⟨f.name, p.name⟩).toDesign = .ok d' ∧
      (∀ x, x ∈ d'.provider.related p ↔ x ∈ d.provider.related p) ∧
      d.provider.efferentCoupling p = 1 ∧ d'.provider.efferentCoupling p = 1 := by
  let p : Entity := ⟨"p", .package, none⟩
  let f : Entity := ⟨"f", .method, some "c"⟩
  have hvalid : sharedPackage.validate = .ok () := by cbv
  obtain ⟨d, hd, hinner⟩ := related_insertUsage sharedPackage hvalid
  obtain rfl := ofCalls_history hd
  have hcontents : (Design.ofCalls sharedPackage.history).provider.descendants p =
      [⟨"c", .classDecl, some "p"⟩, ⟨"m", .method, some "c"⟩, f] := by cbv
  have hf : f ∈ (Design.ofCalls sharedPackage.history).provider.descendants p := by
    simp [hcontents]
  have hcount : (Design.ofCalls sharedPackage.history).provider.efferentCoupling p = 1 := by cbv
  have hkept : ∀ c, ¬ sharedPackage.EscapesTo p f p c := by
    intro c hescape
    have htop : container sharedPackage.entity? p = none := rfl
    cases hescape.2.1 with
    | here hc _ => simp [htop] at hc
    | above hr _ _ => simp [htop] at hr
  obtain ⟨d', hd', hsame, _⟩ := hinner p (by decide) f p (.inr hf) (.inl rfl) 1
  obtain ⟨hrelated, hcount'⟩ := hsame hkept
  exact ⟨hvalid, _, d', p, f, hd, by decide, hf, hkept, hd', hrelated, hcount, hcount'.trans hcount⟩

/-- A method in a package that lies in a class. -/
def packageInClass : Document where
  name := none
  entities := [⟨"c", .classDecl, none⟩, ⟨"p", .package, some "c"⟩, ⟨"m", .method, some "p"⟩]
  usages := []

/-- The method belongs to the class around the package. When it uses the package, the package is
coupled to this class, although both ends of the usage are inside the package. -/
theorem efferentCoupling_packageInClass :
    packageInClass.validate = .ok () ∧ ∃ d d' c p m, packageInClass.toDesign = .ok d ∧
      packageInClass.entities = [c, p, m] ∧ m ∈ d.provider.descendants p ∧
      (packageInClass.insertUsage 0 ⟨m.name, p.name⟩).toDesign = .ok d' ∧
      d.provider.efferentCoupling p = 0 ∧ d'.provider.efferentCoupling p = 1 ∧
      (d.provider.related p).elems = [] ∧ (d'.provider.related p).elems = [c] := by
  have hvalid : packageInClass.validate = .ok () := by cbv
  have hvalid' : (packageInClass.insertUsage 0 ⟨"m", "p"⟩).validate = .ok () := by cbv
  obtain ⟨d, hd, -⟩ := (WellFormed.of_validate hvalid).shows_toDesign
  obtain ⟨d', hd', -⟩ := (WellFormed.of_validate hvalid').shows_toDesign
  obtain rfl := ofCalls_history hd
  obtain rfl := ofCalls_history hd'
  have hinside : (Design.ofCalls packageInClass.history).provider.descendants
      ⟨"p", .package, some "c"⟩ = [⟨"m", .method, some "p"⟩] := by cbv
  refine ⟨hvalid, _, _, _, _, _, hd, rfl, ?_, hd', ?_, ?_, ?_, ?_⟩
  · simp [hinside]
  · cbv
  · cbv
  · cbv
  · cbv

end DesignCoupling.Document
