import DesignCoupling.Coupling
import DesignCoupling.Log

/-!
# Logged coupling

The same computations, leaving an event behind for every set that is computed. Aggregation computes
the direct set of the entity, then those of its contents in order.
-/

namespace DesignCoupling.Provider

variable (P : Provider)

def directRelatedLogged (e : Entity) : Logged EntitySet := do
  let s := P.directRelated e
  Logged.tell (.direct e.name s.size)
  return s

/-- Adds the direct sets of entities to a set. -/
def mergeLogged (s : EntitySet) : List Entity → Logged EntitySet
  | [] => return s
  | m :: contents => do
      let direct ← P.directRelatedLogged m
      mergeLogged (s.union direct.elems) contents

def relatedLogged (e : Entity) : Logged EntitySet := do
  let contents := P.descendants e
  let own ← P.directRelatedLogged e
  let merged ← P.mergeLogged own contents
  let s := P.outside e contents merged
  Logged.tell (.related e.name contents.length s.size)
  return s

def efferentCouplingLogged (e : Entity) : Logged Nat := do
  let s ← P.relatedLogged e
  Logged.tell (.efferent e.name s.size)
  return s.size

@[simp] theorem value_directRelatedLogged (e : Entity) :
    (P.directRelatedLogged e).value = P.directRelated e := rfl

@[simp] theorem events_directRelatedLogged (e : Entity) :
    (P.directRelatedLogged e).events = [.direct e.name (P.directRelated e).size] := rfl

theorem value_mergeLogged (s : EntitySet) (contents : List Entity) :
    (P.mergeLogged s contents).value =
      contents.foldl (fun s m => s.union (P.directRelated m).elems) s := by
  induction contents generalizing s with
  | nil => rfl
  | cons m contents ih => exact ih _

@[simp] theorem value_relatedLogged (e : Entity) : (P.relatedLogged e).value = P.related e := by
  simp only [relatedLogged, Logged.value_bind, Logged.value_pure, value_directRelatedLogged,
    value_mergeLogged, related]

@[simp] theorem value_efferentCouplingLogged (e : Entity) :
    (P.efferentCouplingLogged e).value = P.efferentCoupling e := by
  simp only [efferentCouplingLogged, Logged.value_bind, Logged.value_pure, value_relatedLogged,
    efferentCoupling]

end DesignCoupling.Provider
