import DesignCoupling.Document.Validation
import DesignCoupling.Proofs.Containment
import Mathlib.Data.List.Nodup

/-!
# Well-formed documents

A document is well formed when its names are distinct, containers and the ends of usages are
declared, nothing names itself as its container, and no entity lies inside itself. This is stated
of the records alone, and it is what makes the names of containers a forest.
-/

namespace DesignCoupling.Document

open Containment

/-- The first record of a name. -/
def entity? (doc : Document) (name : String) : Option Entity :=
  doc.entities.find? fun e => e.name == name

/-- One record lies inside another by the containers that the records name. -/
def Inside (doc : Document) : Entity → Entity → Prop := Containment.Inside doc.entity?

/-- What it takes for a document to describe a design. -/
structure WellFormed (doc : Document) : Prop where
  distinct : doc.names.Nodup
  containers : ∀ e ∈ doc.entities, ∀ name, e.parent = some name → name ∈ doc.names ∧ name ≠ e.name
  endpoints : ∀ u ∈ doc.usages, u.source ∈ doc.names ∧ u.target ∈ doc.names
  acyclic : ∀ e ∈ doc.entities, ¬ doc.Inside e e

/-- Everything that is named is declared, once. Containers may still run in a circle. -/
structure Declared (doc : Document) : Prop where
  distinct : doc.names.Nodup
  containers : ∀ e ∈ doc.entities, ∀ name, e.parent = some name → name ∈ doc.names ∧ name ≠ e.name
  endpoints : ∀ u ∈ doc.usages, u.source ∈ doc.names ∧ u.target ∈ doc.names

variable {doc : Document}

theorem WellFormed.declared (h : doc.WellFormed) : doc.Declared :=
  ⟨h.distinct, h.containers, h.endpoints⟩

theorem mem_of_entity? {name : String} {e : Entity} (h : doc.entity? name = some e) :
    e ∈ doc.entities ∧ e.name = name :=
  ⟨List.mem_of_find?_eq_some h, by simpa using List.find?_some h⟩

theorem exists_entity? {name : String} (hname : name ∈ doc.names) :
    ∃ e, doc.entity? name = some e := by
  obtain ⟨e, he, hen⟩ := List.mem_map.1 hname
  exact Option.isSome_iff_exists.1 (List.find?_isSome.2 ⟨e, he, by simpa using hen⟩)

theorem entity?_name (hdistinct : doc.names.Nodup) {e : Entity} (he : e ∈ doc.entities) :
    doc.entity? e.name = some e := by
  obtain ⟨r, hr⟩ := exists_entity? (List.mem_map_of_mem he)
  obtain ⟨hmem, hname⟩ := mem_of_entity? hr
  obtain rfl := List.inj_on_of_nodup_map hdistinct hmem he hname
  exact hr

theorem entity?_eq_some_iff (hdistinct : doc.names.Nodup) {name : String} {e : Entity} :
    doc.entity? name = some e ↔ e ∈ doc.entities ∧ e.name = name := by
  constructor
  · exact mem_of_entity?
  · intro h
    rcases h with ⟨he, rfl⟩
    exact entity?_name hdistinct he

theorem parentOf_name (hdistinct : doc.names.Nodup) {e : Entity} (he : e ∈ doc.entities) :
    doc.parentOf e.name = e.parent := by
  have hfound := entity?_name hdistinct he
  unfold parentOf
  rw [show doc.entities.find? (fun r => r.name == e.name) = some e from hfound]
  rfl

theorem parentOf_mem_names
    (hcontainers : ∀ e ∈ doc.entities, ∀ name, e.parent = some name → name ∈ doc.names)
    {name parent : String} (h : doc.parentOf name = some parent) : parent ∈ doc.names := by
  obtain ⟨e, he, hparent⟩ := Option.bind_eq_some_iff.1 h
  exact hcontainers e (mem_of_entity? he).1 parent hparent

theorem transGen_of_inside (hdistinct : doc.names.Nodup) {a b : Entity} (ha : a ∈ doc.entities)
    (h : doc.Inside a b) :
    Relation.TransGen (fun n p => doc.parentOf n = some p) a.name b.name ∧ b ∈ doc.entities := by
  have hstep : ∀ {a b : Entity}, a ∈ doc.entities → container doc.entity? a = some b →
      doc.parentOf a.name = some b.name ∧ b ∈ doc.entities := by
    intro a b ha hab
    obtain ⟨name, hparent, hfind⟩ := container_eq_some_iff.1 hab
    obtain ⟨hb, rfl⟩ := mem_of_entity? hfind
    exact ⟨(parentOf_name hdistinct ha).trans hparent, hb⟩
  induction h with
  | single hab => exact ⟨.single (hstep ha hab).1, (hstep ha hab).2⟩
  | tail _ hbc ih => exact ⟨.tail ih.1 (hstep ih.2 hbc).1, (hstep ih.2 hbc).2⟩

theorem inside_of_transGen (hdistinct : doc.names.Nodup)
    (hcontainers : ∀ e ∈ doc.entities, ∀ name, e.parent = some name → name ∈ doc.names)
    {e : Entity} {name : String} (he : e ∈ doc.entities)
    (h : Relation.TransGen (fun n p => doc.parentOf n = some p) e.name name) :
    ∃ b, doc.entity? name = some b ∧ doc.Inside e b := by
  have hstep : ∀ {a : Entity} {p : String}, a ∈ doc.entities → doc.parentOf a.name = some p →
      ∃ b, doc.entity? p = some b ∧ container doc.entity? a = some b := by
    intro a p ha hp
    rw [parentOf_name hdistinct ha] at hp
    obtain ⟨b, hb⟩ := exists_entity? (hcontainers a ha p hp)
    exact ⟨b, hb, container_eq_some_iff.2 ⟨p, hp, hb⟩⟩
  induction h with
  | single hp =>
      obtain ⟨b, hb, hab⟩ := hstep he hp
      exact ⟨b, hb, .single hab⟩
  | tail _ hp ih =>
      obtain ⟨a, ha, hea⟩ := ih
      obtain ⟨hmem, rfl⟩ := mem_of_entity? ha
      obtain ⟨b, hb, hab⟩ := hstep hmem hp
      exact ⟨b, hb, .tail hea hab⟩

end DesignCoupling.Document
