import DesignCoupling.Entity

/-!
# Providers

Coupling is computed from a few questions about a design. Whatever answers them from finitely many
entities is a provider; the answers need not fit together.
-/

namespace DesignCoupling

/-- Answers to the questions of the coupling analysis. The entities found by name and the children
are among finitely many. -/
structure Provider where
  entities : List Entity
  lookup : String → Option Entity
  usedBy : Entity → List Entity
  usersOf : Entity → List Entity
  children : Entity → List Entity
  mem_of_lookup : ∀ {name e}, lookup name = some e → e ∈ entities
  mem_of_children : ∀ {e c}, c ∈ children e → c ∈ entities

/-- Neighbours of entities as rows of names. Names that are not declared are left out. -/
structure NeighbourTables where
  entities : List Entity
  usedBy : String → List String
  usersOf : String → List String
  children : String → List String

namespace NeighbourTables

/-- The first entity of a name. -/
def lookup (t : NeighbourTables) (name : String) : Option Entity :=
  t.entities.find? fun e => e.name == name

theorem mem_of_lookup {t : NeighbourTables} {name : String} {e : Entity}
    (h : t.lookup name = some e) : e ∈ t.entities :=
  List.mem_of_find?_eq_some h

/-- The provider that answers from the tables, by name alone. -/
def provider (t : NeighbourTables) : Provider where
  entities := t.entities
  lookup := t.lookup
  usedBy e := (t.usedBy e.name).filterMap t.lookup
  usersOf e := (t.usersOf e.name).filterMap t.lookup
  children e := (t.children e.name).filterMap t.lookup
  mem_of_lookup := mem_of_lookup
  mem_of_children h :=
    let ⟨_, _, hlookup⟩ := List.mem_filterMap.1 h
    mem_of_lookup hlookup

end NeighbourTables

end DesignCoupling
