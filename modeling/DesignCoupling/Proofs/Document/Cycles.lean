import DesignCoupling.Proofs.Design.UnitGraph
import DesignCoupling.Proofs.Document.Assembly

/-!
# Circles of containment

Whether containment runs in a circle is asked in three ways: links of containment are followed from
number to number, containers are followed upwards by their names, and the contents of a child are
searched for the entity that it is a child of. All three find a circle or none does, usages make no
difference to it, and validation refuses exactly the documents whose assembly would have one.
-/

namespace DesignCoupling

open Containment

namespace Design

variable {d d' : Design}

namespace Consistent

theorem hasContainmentCycles_iff_links (hd : d.Consistent) :
    d.hasContainmentCycles = true ↔
      ∃ i, Relation.TransGen (fun m n => ⟨.contains, m, n⟩ ∈ d.links) i i := by
  have hlink : ∀ m n, n ∈ d.contained m ↔ ⟨.contains, m, n⟩ ∈ d.links := by
    intro m n
    rw [mem_contained]
    constructor
    · intro h
      rcases h with ⟨⟨_, _, _⟩, hl, rfl, rfl, rfl⟩
      exact hl
    · exact fun hl => ⟨_, hl, rfl, rfl, rfl⟩
  rw [hd.hasContainmentCycles_iff_contained]
  simp only [hlink]
  constructor
  · intro h
    rcases h with ⟨i, _, hcircle⟩
    exact ⟨i, hcircle⟩
  · intro h
    rcases h with ⟨i, hcircle⟩
    obtain ⟨_, hfirst, _⟩ := Relation.TransGen.head'_iff.1 hcircle
    exact ⟨i, (hd.bounds _ hfirst).1, hcircle⟩

theorem container_ne (hd : d.Consistent) {e : Entity} (he : e ∈ d.entities) :
    container d.get? e ≠ some e := by
  intro hself
  have hchild := (hd.mem_children_iff_container he).2 ⟨he, hself⟩
  obtain ⟨l, hl, hkind, hsource, htarget⟩ := (hd.mem_neighbours_targets he).1 hchild
  exact hd.separate l hl hkind (hd.getElem?_inj hsource htarget)

theorem inside_self_iff_descendants (hd : d.Consistent) :
    (∃ e ∈ d.entities, Inside d.get? e e) ↔
      ∃ x ∈ d.entities, ∃ c ∈ d.provider.children x, x ∈ d.provider.descendants c := by
  constructor
  · intro h
    rcases h with ⟨e, he, hcircle⟩
    obtain ⟨x, hup, hback⟩ := Relation.TransGen.head'_iff.1 hcircle
    have hx : x ∈ d.entities := (hd.container_eq_some_iff.1 hup).1
    have hne : x ≠ e := by
      rintro rfl
      exact hd.container_ne he hup
    have hinside : Inside d.get? x e :=
      (Relation.reflTransGen_iff_eq_or_transGen.1 hback).resolve_left hne.symm
    exact ⟨x, hx, e, (hd.mem_children_iff_container hx).2 ⟨he, hup⟩,
      (hd.mem_descendants_iff he).2 ⟨hne, hx, hinside⟩⟩
  · intro h
    rcases h with ⟨x, hx, c, hc, hdescendant⟩
    obtain ⟨hmem, hup⟩ := (hd.mem_children_iff_container hx).1 hc
    have hinside : Inside d.get? x c := ((hd.mem_descendants_iff hmem).1 hdescendant).2.2
    exact ⟨x, hx, .tail hinside hup⟩

end Consistent

/-- A call by which one entity uses another. -/
def Call.isUsage : Call → Bool
  | .addUsage _ _ => true
  | _ => false

/-- The same entities under the same numbers, whatever links there are. -/
structure SameEntities (d d' : Design) : Prop where
  entities : d.entities = d'.entities
  index : d.index = d'.index

namespace SameEntities

theorem indexOf?_eq (h : SameEntities d d') (name : String) :
    d.indexOf? name = d'.indexOf? name := by
  rw [indexOf?, h.index]
  rfl

theorem get?_eq (h : SameEntities d d') : d.get? = d'.get? := by
  funext name
  rw [get?, h.indexOf?_eq, h.entities]
  rfl

theorem perform_usage (h : SameEntities d d') {call : Call} (hcall : call.isUsage = true) :
    SameEntities (d.perform call).2 d' := by
  have hanswers := d.perform_answers call
  generalize (d.perform call).1 = reply at hanswers
  generalize (d.perform call).2 = next at hanswers ⊢
  cases hanswers with
  | ignored => exact h
  | linked => exact ⟨h.entities, h.index⟩
  | _ => cases hcall

theorem perform (h : SameEntities d d') {call : Call} (hcall : call.isUsage = false) :
    SameEntities (d.perform call).2 (d'.perform call).2 := by
  cases call with
  | addEntity name kind =>
      change SameEntities (d.addEntity name kind).2 (d'.addEntity name kind).2
      rw [addEntity_snd, addEntity_snd, h.indexOf?_eq]
      split
      · exact ⟨by rw [withEntity, withEntity, h.entities],
          by rw [withEntity, withEntity, h.entities, h.index]⟩
      · exact h
  | addContainment parent child =>
      -- the answer depends on nothing but entities and index
      simp only [Design.perform, Design.addContainment, h.indexOf?_eq, h.entities]
      by_cases hself : parent = child
      · simpa [hself] using h
      rw [if_neg hself, if_neg hself]
      cases d'.indexOf? parent with
      | none => exact h
      | some p =>
          cases d'.indexOf? child with
          | none => exact h
          | some c =>
              dsimp only
              cases d'.entities[c]?.bind Entity.parent with
              | none => exact ⟨by simp [link, setParent, h.entities], h.index⟩
              | some current => by_cases hsame : current = parent <;> simpa [hsame] using h
  | addUsage => cases hcall

theorem performAll (h : SameEntities d d') (calls : List Call) :
    SameEntities (d.performAll calls) (d'.performAll (calls.filter fun call => !call.isUsage)) := by
  induction calls generalizing d d' with
  | nil => exact h
  | cons call calls ih =>
      cases hcall : call.isUsage with
      | true =>
          rw [List.filter_cons_of_neg (by simp [hcall])]
          exact ih (h.perform_usage hcall)
      | false =>
          rw [List.filter_cons_of_pos (by simp [hcall])]
          exact ih (h.perform hcall)

theorem hasContainmentCycles_eq (h : SameEntities d d') (hd : d.Consistent)
    (hd' : d'.Consistent) : d.hasContainmentCycles = d'.hasContainmentCycles := by
  rw [Bool.eq_iff_iff, hd.hasContainmentCycles_iff, hd'.hasContainmentCycles_iff, h.entities,
    h.get?_eq]

end SameEntities

end Design

namespace Document

/-- In every design that calls can build, a cycle is found exactly if links of containment lead from
some number back to it, exactly if some entity is met again on the way up from it by container
names, and exactly if some entity is among the contents of a child of its own. The calls that add
usages can be left out without a difference to it. When a document declares all that it names, each
once and nothing as its own container, the design assembled from it has a cycle exactly if
validation reports one, and otherwise the document is valid. -/
theorem containmentCycles_agree :
    (∀ calls d, Design.ofCalls calls = d →
      (d.hasContainmentCycles = true ↔
        ∃ i, Relation.TransGen (fun m n => ⟨.contains, m, n⟩ ∈ d.links) i i) ∧
      (d.hasContainmentCycles = true ↔ ∃ e ∈ d.entities,
        Relation.TransGen (fun a b => a.parent.bind d.provider.lookup = some b) e e) ∧
      (d.hasContainmentCycles = true ↔
        ∃ x ∈ d.entities, ∃ c ∈ d.provider.children x, x ∈ d.provider.descendants c) ∧
      (Design.ofCalls (calls.filter fun call => !call.isUsage)).hasContainmentCycles =
        d.hasContainmentCycles) ∧
    ∀ doc : Document, doc.Declared →
      ∃ d, doc.assemble = .ok d ∧ Design.ofCalls doc.history = d ∧
        (d.hasContainmentCycles = true ↔ ∃ name, doc.validate = .error (.cycle name)) ∧
        (d.hasContainmentCycles = false ↔ doc.validate = .ok ()) := by
  constructor
  · intro calls d hd
    have hconsistent : d.Consistent := hd ▸ Design.Consistent.ofCalls calls
    have hinside := hconsistent.hasContainmentCycles_iff
    have hsame : Design.SameEntities d
        (Design.ofCalls (calls.filter fun call => !call.isUsage)) :=
      hd ▸ Design.SameEntities.performAll ⟨rfl, rfl⟩ calls
    refine ⟨hconsistent.hasContainmentCycles_iff_links, hinside, ?_, ?_⟩
    · exact hinside.trans hconsistent.inside_self_iff_descendants
    · exact (hsame.hasContainmentCycles_eq hconsistent (.ofCalls _)).symm
  · intro doc hdeclared
    obtain ⟨d, hd, hshows⟩ := hdeclared.shows_assemble
    have hcycle := hshows.hasContainmentCycles_iff hdeclared.distinct
    refine ⟨d, hd, ofCalls_history_of_assemble hd, hcycle.trans hdeclared.exists_cycle_iff.symm, ?_⟩
    rw [Bool.eq_false_iff, ne_eq, hcycle]
    constructor
    · intro hacyclic
      apply WellFormed.validate
      exact { hdeclared with acyclic := fun e he hinside => hacyclic ⟨e, he, hinside⟩ }
    · intro hvalid h
      rcases h with ⟨e, he, hinside⟩
      exact (WellFormed.of_validate hvalid).acyclic e he hinside

/-- A class with its method below two packages that hold each other, and a class outside with a
method; the two methods use each other. -/
def tailIntoCircle : Document where
  name := none
  entities := [⟨"m", .method, some "c"⟩, ⟨"c", .classDecl, some "p"⟩, ⟨"p", .package, some "q"⟩,
    ⟨"q", .package, some "p"⟩, ⟨"x", .classDecl, none⟩, ⟨"f", .method, some "x"⟩]
  usages := [⟨"m", "f"⟩, ⟨"f", "m"⟩]

/-- Validation reports the packages, although the way up starts at the method, and the design has a
circle of links, of names and of contents, also without the usages. -/
theorem containmentCycles_tailIntoCircle :
    tailIntoCircle.Declared ∧ tailIntoCircle.validate = .error (.cycle "p") ∧
      ∃ d, tailIntoCircle.assemble = .ok d ∧ Design.ofCalls tailIntoCircle.history = d ∧
        d.hasContainmentCycles = true ∧
        (∃ i, Relation.TransGen (fun m n => ⟨.contains, m, n⟩ ∈ d.links) i i) ∧
        (∃ x ∈ d.entities, ∃ c ∈ d.provider.children x, x ∈ d.provider.descendants c) ∧
        (Design.ofCalls (tailIntoCircle.history.filter fun call =>
          !call.isUsage)).hasContainmentCycles = true := by
  have hdeclared : tailIntoCircle.Declared := by
    refine ⟨by decide, ?_, by decide⟩
    simp [tailIntoCircle, names]
  have hcycle : tailIntoCircle.validate = .error (.cycle "p") := by cbv
  obtain ⟨hcalls, hdocuments⟩ := containmentCycles_agree
  obtain ⟨d, hd, hhistory, hreported, _⟩ := hdocuments tailIntoCircle hdeclared
  obtain ⟨hlinks, _, hcontents, husages⟩ := hcalls tailIntoCircle.history d hhistory
  have hfound : d.hasContainmentCycles = true := hreported.2 ⟨"p", hcycle⟩
  exact ⟨hdeclared, hcycle, d, hd, hhistory, hfound, hlinks.1 hfound, hcontents.1 hfound,
    husages.trans hfound⟩

end Document

end DesignCoupling
