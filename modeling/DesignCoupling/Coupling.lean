import DesignCoupling.Design
import DesignCoupling.EntitySet

/-!
# Coupling

Coupling is counted between units. The unit of a method, field or relation is the nearest class
around it; every other entity is its own unit. A usage couples the units of its two ends, whichever
of them uses the other. An entity with contents reports what the contents are coupled to, less
itself, its contents and the class around it.
-/

namespace DesignCoupling

namespace Provider

variable (P : Provider)

def containerNames : List String := P.entities.filterMap Entity.parent

/-- The nearest class on the way up from a container name. A name met twice means that the
containers run in a circle without a class. -/
def classAbove (fresh : List String) (container : Option String) : Option Entity :=
  match container with
  | none => none
  | some name =>
      if h : name ∈ fresh then
        have := Search.length_without_lt h
        match P.lookup name with
        | none => none
        | some e =>
            if e.kind = .classDecl then some e
            else classAbove (Search.without fresh name) e.parent
      else none
termination_by fresh.length

/-- The class that a method, field or relation is declared in. Packages and classes have none. -/
def enclosingClass (e : Entity) : Option Entity :=
  if e.kind.isMember then P.classAbove (e.parent.toList ++ P.containerNames) e.parent else none

/-- What an entity stands for in a usage. -/
def unit (e : Entity) : Entity := (P.enclosingClass e).getD e

/-- All that an entity contains, depth first, children in order, each once. -/
def descendants (e : Entity) : List Entity :=
  Search.walk P.children (Search.without P.entities e) (P.children e)

/-- The units at the other ends of the usages of an entity. -/
def endpoints (e : Entity) : List Entity := (P.usedBy e ++ P.usersOf e).map P.unit

/-- The entities whose unit a class is, itself apart. -/
def members (e : Entity) : List Entity :=
  if e.kind = .classDecl then
    (P.descendants e).filter fun m => P.enclosingClass m = some e
  else []

/-- The units that an entity is coupled to by usages of its own, for a class also by those of its
members. Neither the entity nor its enclosing class is among them. -/
def directRelated (e : Entity) : EntitySet :=
  let own := P.enclosingClass e
  (EntitySet.ofList ((e :: P.members e).flatMap P.endpoints)).filter fun x =>
    x ≠ e ∧ some x ≠ own

/-- Leaves out an entity, its contents and the class around it. -/
def outside (e : Entity) (contents : List Entity) (s : EntitySet) : EntitySet :=
  let own := P.enclosingClass e
  s.filter fun x => x ≠ e ∧ some x ≠ own ∧ x ∉ contents

/-- The units that an entity or anything it contains is coupled to, and that lie outside it. -/
def related (e : Entity) : EntitySet :=
  let contents := P.descendants e
  P.outside e contents
    (contents.foldl (fun s m => s.union (P.directRelated m).elems) (P.directRelated e))

theorem mem_descendants {e m : Entity} (h : m ∈ P.descendants e) : m ∈ P.entities ∧ m ≠ e :=
  Search.mem_without.1 (Search.mem_fresh_of_mem_walk h)

theorem nodup_descendants (e : Entity) : (P.descendants e).Nodup :=
  Search.nodup_walk _ _ _

theorem mem_members {e m : Entity} :
    m ∈ P.members e ↔
      e.kind = .classDecl ∧ m ∈ P.descendants e ∧ P.enclosingClass m = some e := by
  unfold members
  split
  · next h => simp [h]
  · next h => simp [h]

theorem mem_directRelated {e x : Entity} :
    x ∈ P.directRelated e ↔
      (∃ m, (m = e ∨ m ∈ P.members e) ∧ x ∈ P.endpoints m) ∧
        x ≠ e ∧ some x ≠ P.enclosingClass e := by
  simp only [directRelated, EntitySet.mem_filter, EntitySet.mem_ofList, List.mem_flatMap,
    List.mem_cons, decide_eq_true_eq]

private theorem mem_merged {contents : List Entity} {s : EntitySet} {x : Entity} :
    x ∈ contents.foldl (fun s m => s.union (P.directRelated m).elems) s ↔
      x ∈ s ∨ ∃ m ∈ contents, x ∈ P.directRelated m := by
  induction contents generalizing s with
  | nil => simp
  | cons m contents ih =>
      rw [List.foldl_cons, ih, EntitySet.mem_union, ← EntitySet.mem_def, or_assoc]
      simp only [List.mem_cons, exists_eq_or_imp]

theorem mem_related {e x : Entity} :
    x ∈ P.related e ↔
      (∃ m, (m = e ∨ m ∈ P.descendants e) ∧ x ∈ P.directRelated m) ∧
        x ≠ e ∧ some x ≠ P.enclosingClass e ∧ x ∉ P.descendants e := by
  simp only [related, outside, EntitySet.mem_filter, mem_merged, decide_eq_true_eq,
    or_and_right, exists_or, exists_eq_left]

/-- Efferent coupling: the number of units that an entity is coupled to. -/
def efferentCoupling (e : Entity) : Nat := (P.related e).size

def efferentCoupling? (e : Option Entity) : Nat := (e.map P.efferentCoupling).getD 0

/-- The efferent coupling of the entity of this name. A name that is not known is refused. -/
def efferentCouplingOf (name : String) : Except Design.Refusal Nat :=
  match P.lookup name with
  | none => .error (.notFound name)
  | some e => .ok (P.efferentCoupling? (some e))

end Provider

/-- A number that measures an entity of a design, or the absence of one. -/
structure Metric where
  name : String
  abbreviation : String
  value : Provider → Option Entity → Nat

def Metric.efferentCoupling : Metric where
  name := "Efferent Coupling"
  abbreviation := "Ce"
  value P e := P.efferentCoupling? e

end DesignCoupling
