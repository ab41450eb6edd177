import DesignCoupling.Document
import DesignCoupling.Json.Tree

/-!
# Writing documents

A document is written as an object with its fields in order. Names and parents that are absent are
left out.
-/

namespace DesignCoupling

open Json

/-- A member for a text that is there. -/
def optionalMember (key : String) (value : Option String) : List (String × Tree) :=
  match value with
  | none => []
  | some text => [(key, .text text)]

def EntityKind.tree (kind : EntityKind) : Tree := .text kind.label

def Entity.tree (e : Entity) : Tree :=
  .object ([("name", .text e.name), ("kind", e.kind.tree)] ++ optionalMember "parent" e.parent)

def Usage.tree (u : Usage) : Tree := .object [("from", .text u.source), ("to", .text u.target)]

namespace Document

def tree (d : Document) : Tree :=
  .object (optionalMember "name" d.name ++
    [("entities", .list (d.entities.map Entity.tree)), ("usages", .list (d.usages.map Usage.tree))])

def write (d : Document) : String := d.tree.toText

end Document

end DesignCoupling
