import DesignCoupling.Proofs.Design.Cycles
import DesignCoupling.Proofs.Design.UnitGraph

/-!
# Contents and containers

The contents of an entity are searched downwards, by links to children. The containers of an entity
are found upwards, by the name that each entity keeps of its container. Both are the same relation
read from its two ends, also where containers run in a circle: there an entity can be among the
contents of its own contents.
-/

namespace DesignCoupling.Design

open Containment

variable {d : Design}

namespace Consistent

theorem cycle_of_mem_descendants (hd : d.Consistent) {a b : Entity} (ha : a ∈ d.entities)
    (hb : b ∈ d.entities) (hab : b ∈ d.provider.descendants a)
    (hba : a ∈ d.provider.descendants b) : d.hasContainmentCycles = true := by
  have hinside : Inside d.get? b a := ((hd.mem_descendants_iff ha).1 hab).2.2
  have hinside' : Inside d.get? a b := ((hd.mem_descendants_iff hb).1 hba).2.2
  exact hd.hasContainmentCycles_iff.2 ⟨a, ha, hinside'.trans hinside⟩

end Consistent

/-- In every design that calls can build, the contents of an entity are the others from which it is
met on the way up by container names. So contents of contents are contents, the entity itself apart,
and without a cycle no two entities are among the contents of each other. -/
theorem descendants_ofCalls (calls : List Call) {d : Design} (hd : ofCalls calls = d) :
    (∀ e ∈ d.entities, ∀ x ∈ d.entities, x ≠ e →
      (x ∈ d.provider.descendants e ↔
        Relation.TransGen (fun a b => a.parent.bind d.provider.lookup = some b) x e)) ∧
    (∀ a ∈ d.entities, ∀ b ∈ d.entities, ∀ c ∈ d.entities, c ≠ a →
      b ∈ d.provider.descendants a → c ∈ d.provider.descendants b →
        c ∈ d.provider.descendants a) ∧
    (d.hasContainmentCycles = false → ∀ a ∈ d.entities, ∀ b ∈ d.entities,
      b ∈ d.provider.descendants a → a ∉ d.provider.descendants b) := by
  have hconsistent : d.Consistent := hd ▸ Consistent.ofCalls calls
  refine ⟨?_, ?_, ?_⟩
  · intro e he x hx hne
    rw [hconsistent.mem_descendants_iff he, and_iff_right hne, and_iff_right hx]
    rfl
  · intro a _ b _ c _ hne hab hbc
    exact (Provider.mem_descendants_trans hab hbc).resolve_left hne
  · intro hfree a ha b hb hab hba
    rw [hconsistent.cycle_of_mem_descendants ha hb hab hba] at hfree
    cases hfree

/-- A method in a class in a package. -/
def chainCalls : List Call :=
  [.addEntity "p" .package, .addEntity "c" .classDecl, .addEntity "m" .method,
    .addContainment "p" "c", .addContainment "c" "m"]

/-- The method is among the contents of the package, and not the other way round until the package
is put into the method. -/
theorem descendants_chainCalls :
    ∃ d d' p p' c m, ofCalls chainCalls = d ∧
      ofCalls (chainCalls ++ [.addContainment "m" "p"]) = d' ∧
      d.entities = #[p, c, m] ∧ d'.entities = #[p', c, m] ∧ d.hasContainmentCycles = false ∧
      m ∈ d.provider.descendants p ∧ p ∉ d.provider.descendants m ∧
      m ∈ d'.provider.descendants p' ∧ p' ∈ d'.provider.descendants m := by
  let p : Entity := ⟨"p", .package, none⟩
  let p' : Entity := ⟨"p", .package, some "m"⟩
  let c : Entity := ⟨"c", .classDecl, some "p"⟩
  let m : Entity := ⟨"m", .method, some "c"⟩
  have hentities : (ofCalls chainCalls).entities = #[p, c, m] := rfl
  have hentities' : (ofCalls (chainCalls ++ [.addContainment "m" "p"])).entities =
      #[p', c, m] := rfl
  have hfree : (ofCalls chainCalls).hasContainmentCycles = false := by cbv
  obtain ⟨hup, _, hapart⟩ := descendants_ofCalls chainCalls rfl
  obtain ⟨hup', _, _⟩ := descendants_ofCalls (chainCalls ++ [.addContainment "m" "p"]) rfl
  rw [hentities] at hup hapart
  rw [hentities'] at hup'
  have hmp := (hup p (by simp) m (by simp) (by decide)).2 (.head (b := c) rfl (.single rfl))
  exact ⟨_, _, p, p', c, m, rfl, rfl, hentities, hentities', hfree, hmp,
    hapart hfree p (by simp) m (by simp) hmp,
    (hup' p' (by simp) m (by simp) (by decide)).2 (.head (b := c) rfl (.single rfl)),
    (hup' m (by simp) p' (by simp) (by decide)).2 (.single rfl)⟩

end DesignCoupling.Design
