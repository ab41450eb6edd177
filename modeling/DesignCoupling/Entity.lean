import DesignCoupling.Kind

/-!
# Entities and usages

An entity is known by its qualified name and may be held by a container, which it names. Two
entities are the same only when name, kind and container agree.
-/

namespace DesignCoupling

structure Entity where
  name : String
  kind : EntityKind
  parent : Option String
  deriving DecidableEq, Repr

namespace Entity

def isTop (e : Entity) : Bool := e.parent.isNone

def display (e : Entity) : String := e.name ++ " (" ++ e.kind.label ++ ")"

end Entity

/-- The entity named `source` uses the one named `target`. -/
structure Usage where
  source : String
  target : String
  deriving DecidableEq, Repr

end DesignCoupling
