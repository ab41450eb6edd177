import DesignCoupling.Entity
import Mathlib.Logic.Relation

/-!
# Containment by name

An entity names its container, and the container is found by that name. All notions of this module
depend on nothing but the way in which names are found, so they can be read off the records of a
document as well as asked of a design.
-/

namespace DesignCoupling.Containment

variable (find : String → Option Entity)

/-- The container of an entity, if it names one that is found. -/
def container (e : Entity) : Option Entity := e.parent.bind find

/-- One entity lies inside another, at any depth: the other is met on the way up. -/
def Inside : Entity → Entity → Prop := Relation.TransGen fun a b => container find a = some b

/-- The nearest class on the way up from an entity. -/
inductive NearestClass : Entity → Entity → Prop
  | here {e c : Entity} (hc : container find e = some c) (hkind : c.kind = .classDecl) :
      NearestClass e c
  | above {e r c : Entity} (hr : container find e = some r) (hkind : r.kind ≠ .classDecl)
      (hnearest : NearestClass r c) : NearestClass e c

/-- A method, field or relation belongs to the nearest class around it. -/
def BelongsTo (e c : Entity) : Prop := e.kind.isMember = true ∧ NearestClass find e c

/-- The unit of an entity: the class that it belongs to, or itself if there is none. -/
def StandsFor (e x : Entity) : Prop :=
  BelongsTo find e x ∨ (¬ ∃ c, BelongsTo find e c) ∧ x = e

variable {find}

theorem container_eq_some_iff {a b : Entity} :
    container find a = some b ↔ ∃ name, a.parent = some name ∧ find name = some b :=
  Option.bind_eq_some_iff

theorem Inside.trans {a b c : Entity} (hab : Inside find a b) (hbc : Inside find b c) :
    Inside find a c :=
  Relation.TransGen.trans hab hbc

theorem Inside.parent_ne_none {a b : Entity} (h : Inside find a b) : a.parent ≠ none := by
  obtain ⟨_, hup, _⟩ := Relation.TransGen.head'_iff.1 h
  obtain ⟨name, hparent, _⟩ := container_eq_some_iff.1 hup
  simp [hparent]

namespace NearestClass

theorem kind_eq {e c : Entity} (h : NearestClass find e c) : c.kind = .classDecl := by
  induction h with
  | here _ hkind => exact hkind
  | above _ _ _ ih => exact ih

theorem inside {e c : Entity} (h : NearestClass find e c) : Inside find e c := by
  induction h with
  | here hc _ => exact .single hc
  | above hr _ _ ih => exact .head hr ih

theorem exists_find {e c : Entity} (h : NearestClass find e c) : ∃ name, find name = some c := by
  induction h with
  | here hc _ =>
      obtain ⟨name, _, hfind⟩ := container_eq_some_iff.1 hc
      exact ⟨name, hfind⟩
  | above _ _ _ ih => exact ih

theorem of_inside {y e c : Entity} (h : NearestClass find y c) (hye : Inside find y e) :
    Inside find c e ∨ c = e ∨ e.kind ≠ .classDecl ∧ NearestClass find e c := by
  induction hye using Relation.TransGen.head_induction_on with
  | single hup =>
      cases h with
      | here hc _ => exact .inr (.inl (Option.some.inj (hc.symm.trans hup)))
      | above hr hkind hnearest =>
          obtain rfl := Option.some.inj (hr.symm.trans hup)
          exact .inr (.inr ⟨hkind, hnearest⟩)
  | head hup hinside ih =>
      cases h with
      | here hc _ =>
          obtain rfl := Option.some.inj (hc.symm.trans hup)
          exact .inl hinside
      | above hr _ hnearest =>
          obtain rfl := Option.some.inj (hr.symm.trans hup)
          exact ih hnearest

end NearestClass

end DesignCoupling.Containment
