import DesignCoupling.Entity

/-!
# Design documents

A document lists the entities of a design with their containers, and the usages between them.
Nothing is checked yet: names may repeat, and may name nothing.
-/

namespace DesignCoupling

/-- What a document says of a design. -/
structure Document where
  name : Option String
  entities : List Entity
  usages : List Usage
  deriving DecidableEq, Repr

end DesignCoupling
