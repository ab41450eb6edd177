/-!
# Kinds of design entities

A design is made of packages, classes and the members of classes. The kind of an entity has one
label, which documents and reports write, and which a command line may give in any case.
-/

namespace DesignCoupling

inductive EntityKind where
  | package
  | classDecl
  | method
  | field
  | relation
  deriving DecidableEq, Repr

namespace EntityKind

/-- Every kind, outermost first. -/
def all : List EntityKind := [package, classDecl, method, field, relation]

def label : EntityKind → String
  | package => "package"
  | classDecl => "class"
  | method => "method"
  | field => "field"
  | relation => "relation"

/-- The kind with exactly this label. -/
def ofLabel? (text : String) : Option EntityKind :=
  all.find? fun kind => kind.label == text

/-- Packages and classes stand for themselves; every other kind is a member of what holds it. -/
def isMember : EntityKind → Bool
  | package | classDecl => false
  | method | field | relation => true

/-- Lower case as far as labels can tell: beside the capitals of ASCII only the Kelvin sign has a
lower case inside ASCII. -/
def foldCase (c : Char) : Char :=
  if c = '\u212A' then 'k' else c.toLower

/-- The kind whose label this is when case is ignored. Blanks count. -/
def ofText? (text : String) : Option EntityKind :=
  all.find? fun kind => kind.label.toList == text.toList.map foldCase

def unknownMessage (text : String) : String :=
  "Unknown entity kind: '" ++ text ++ "'. Valid kinds: " ++ ", ".intercalate (all.map label)

theorem eq_package {kind : EntityKind} (hclass : kind ≠ classDecl)
    (hmember : ¬ kind.isMember = true) : kind = package := by
  cases kind <;> simp_all [isMember]

@[simp] theorem ofLabel?_label (kind : EntityKind) : ofLabel? kind.label = some kind := by
  cases kind <;> decide

end EntityKind

end DesignCoupling
