import DesignCoupling.Document
import DesignCoupling.Design

/-!
# Validation

A document describes a design when its names are distinct, containers and the ends of usages are
declared, nothing contains itself, and the way up from every entity ends. The defects are looked
for in this order; of each sort the first in the document is reported.
-/

namespace DesignCoupling

inductive Defect where
  | duplicate (name : String)
  | containsItself (name : String)
  | unknownParent (name parent : String)
  | unknownEndpoint (usage : Usage) (name : String)
  | cycle (name : String)
  | refused (refusal : Design.Refusal)
  deriving DecidableEq, Repr

def Defect.message : Defect → String
  | duplicate name => "duplicate entity '" ++ name ++ "'"
  | containsItself name => "entity '" ++ name ++ "' contains itself"
  | unknownParent name parent =>
      "entity '" ++ name ++ "' names unknown parent '" ++ parent ++ "'"
  | unknownEndpoint usage name =>
      "usage '" ++ usage.source ++ "' -> '" ++ usage.target ++ "' names unknown entity '" ++
        name ++ "'"
  | cycle name => "containment cycle through '" ++ name ++ "'"
  | refused refusal => refusal.message

namespace Document

def names (d : Document) : List String := d.entities.map Entity.name

/-- The container that a document gives to a name. -/
def parentOf (d : Document) (name : String) : Option String :=
  (d.entities.find? fun e => e.name == name).bind Entity.parent

/-- The first name of a list that has been seen, or occurred before. -/
def firstRepeated (seen : List String) : List String → Option String
  | [] => none
  | name :: names => if name ∈ seen then some name else firstRepeated (name :: seen) names

def parentDefect (d : Document) (e : Entity) : Option Defect :=
  match e.parent with
  | none => none
  | some parent =>
      if parent = e.name then some (.containsItself e.name)
      else if parent ∈ d.names then none
      else some (.unknownParent e.name parent)

def usageDefect (d : Document) (u : Usage) : Option Defect :=
  if u.source ∉ d.names then some (.unknownEndpoint u u.source)
  else if u.target ∉ d.names then some (.unknownEndpoint u u.target)
  else none

/-- Goes up from a name to the top, or to a name from where the way up is known to end. Answers
the names passed, or the first name met twice. -/
def climb (parentOf : String → Option String) (clear fresh : List String) (name : String) :
    Except String (List String) :=
  if name ∈ clear then .ok []
  else if h : name ∈ fresh then
    have := Search.length_without_lt h
    match parentOf name with
    | none => .ok [name]
    | some parent =>
        match climb parentOf clear (Search.without fresh name) parent with
        | .ok passed => .ok (name :: passed)
        | .error name => .error name
  else .error name
termination_by fresh.length

/-- The first name met twice on the way up from one of these entities. -/
def firstCycle (d : Document) (clear : List String) : List Entity → Option String
  | [] => none
  | e :: es =>
      match climb d.parentOf clear d.names e.name with
      | .ok passed => d.firstCycle (passed ++ clear) es
      | .error name => some name

def defect? (d : Document) : Option Defect :=
  ((firstRepeated [] d.names).map .duplicate)
    <|> d.entities.findSome? d.parentDefect
    <|> d.usages.findSome? d.usageDefect
    <|> (d.firstCycle [] d.entities).map .cycle

/-- Accepts the documents without defect. -/
def validate (d : Document) : Except Defect Unit :=
  match d.defect? with
  | some defect => .error defect
  | none => .ok ()

end Document

end DesignCoupling
