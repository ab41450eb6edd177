import Std.Data.TreeMap
import DesignCoupling.Provider
import DesignCoupling.Search

/-!
# Designs

A design grows by entities and by links between them. Entities are numbered in the order in which
they were added and found by name through an index. A link says that one entity contains or uses
another; links keep the order in which they were added. An entity that has been put into a
container also carries the name of the container.
-/

namespace DesignCoupling

inductive LinkKind where
  | contains
  | uses
  deriving DecidableEq, Repr

/-- A link from one entity to another, by their numbers. -/
structure Link where
  kind : LinkKind
  source : Nat
  target : Nat
  deriving DecidableEq, Repr

/-- Entities with the links between them. -/
structure Design where
  entities : Array Entity
  index : Std.TreeMap String Nat
  links : Array Link

namespace Design

/-- Why a design does not answer or does not change. -/
inductive Refusal where
  | notFound (name : String)
  | otherParent (child current requested : String)
  | containsItself (name : String)
  deriving DecidableEq, Repr

def Refusal.message : Refusal → String
  | notFound name => "Entity not found: " ++ name
  | otherParent child current requested =>
      "Entity '" ++ child ++ "' is already contained in '" ++ current ++
        "', cannot move it to '" ++ requested ++ "'"
  | containsItself name => "Entity cannot contain itself: " ++ name

def empty : Design := ⟨#[], ∅, #[]⟩

def indexOf? (d : Design) (name : String) : Option Nat := d.index[name]?

def get? (d : Design) (name : String) : Option Entity :=
  (d.indexOf? name).bind fun i => d.entities[i]?

def ofKind (d : Design) (kind : EntityKind) : List Entity :=
  d.entities.toList.filter fun e => e.kind = kind

def entityCount (d : Design) : Nat := d.entities.size

def usageCount (d : Design) : Nat := d.links.countP fun l => l.kind = .uses

def isEmpty (d : Design) : Bool := d.entities.isEmpty

/-- Adds an entity at the top, and tells its number. A name that is known keeps its entity. -/
def addEntity (d : Design) (name : String) (kind : EntityKind) : Nat × Design :=
  match d.indexOf? name with
  | some i => (i, d)
  | none =>
      let i := d.entities.size
      (i, { d with entities := d.entities.push ⟨name, kind, none⟩, index := d.index.insert name i })

def link (d : Design) (kind : LinkKind) (source target : Nat) : Design :=
  { d with links := d.links.push ⟨kind, source, target⟩ }

/-- Names the container of the entity with number `i`. -/
def setParent (d : Design) (i : Nat) (parent : String) : Design :=
  { d with entities := d.entities.modify i fun e => { e with parent := some parent } }

/-- Puts an entity into a container. An entity has at most one container, and keeps it. -/
def addContainment (d : Design) (parent child : String) : Except Refusal Design :=
  if parent = child then .error (.containsItself child)
  else
    match d.indexOf? parent with
    | none => .error (.notFound parent)
    | some p =>
        match d.indexOf? child with
        | none => .error (.notFound child)
        | some c =>
            match d.entities[c]?.bind Entity.parent with
            | some current =>
                if current = parent then .ok d else .error (.otherParent child current parent)
            | none => .ok ((d.setParent c parent).link .contains p c)

/-- Records that one entity uses another, if both are known. -/
def addUsage (d : Design) (source target : String) : Option Design :=
  match d.indexOf? source, d.indexOf? target with
  | some s, some t => some (d.link .uses s t)
  | _, _ => none

/-- The entities that links of one kind lead to from the entity with number `i`. -/
def targets (d : Design) (kind : LinkKind) (i : Nat) : List Entity :=
  d.links.toList.filterMap fun l =>
    if l.kind = kind ∧ l.source = i then d.entities[l.target]? else none

/-- The entities from which links of one kind lead to the entity with number `i`. -/
def sources (d : Design) (kind : LinkKind) (i : Nat) : List Entity :=
  d.links.toList.filterMap fun l =>
    if l.kind = kind ∧ l.target = i then d.entities[l.source]? else none

def neighbours (d : Design) (side : Nat → List Entity) (name : String) : List Entity :=
  ((d.indexOf? name).map side).getD []

theorem mem_of_get? {d : Design} {name : String} {e : Entity} (h : d.get? name = some e) :
    e ∈ d.entities.toList := by
  obtain ⟨i, _, hi⟩ := Option.bind_eq_some_iff.1 h
  exact Array.mem_toList_iff.2 (Array.mem_of_getElem? hi)

theorem mem_of_targets {d : Design} {kind : LinkKind} {i : Nat} {e : Entity}
    (h : e ∈ d.targets kind i) : e ∈ d.entities.toList := by
  obtain ⟨l, _, hl⟩ := List.mem_filterMap.1 h
  split at hl
  · exact Array.mem_toList_iff.2 (Array.mem_of_getElem? hl)
  · simp at hl

theorem mem_of_neighbours {d : Design} {side : Nat → List Entity} {name : String} {e : Entity}
    (h : e ∈ d.neighbours side name) : ∃ i, d.indexOf? name = some i ∧ e ∈ side i := by
  unfold neighbours at h
  cases hi : d.indexOf? name with
  | none => simp [hi] at h
  | some i => exact ⟨i, rfl, by simpa [hi] using h⟩

/-- A design answers by name, neighbours in the order of their links. -/
def provider (d : Design) : Provider where
  entities := d.entities.toList
  lookup := d.get?
  usedBy e := d.neighbours (d.targets .uses) e.name
  usersOf e := d.neighbours (d.sources .uses) e.name
  children e := d.neighbours (d.targets .contains) e.name
  mem_of_lookup := mem_of_get?
  mem_of_children h :=
    let ⟨_, _, hi⟩ := mem_of_neighbours h
    mem_of_targets hi

/-- The numbers of the entities directly inside the one with number `i`. -/
def contained (d : Design) (i : Nat) : List Nat :=
  d.links.toList.filterMap fun l => if l.kind = .contains ∧ l.source = i then some l.target else none

/-- Whether containment leads from some entity back to it. -/
def hasContainmentCycles (d : Design) : Bool :=
  let numbers := List.range d.entities.size
  numbers.any fun i => i ∈ Search.walk d.contained numbers (d.contained i)

end Design

end DesignCoupling
