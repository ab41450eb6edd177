import DesignCoupling.Document
import DesignCoupling.Json.Record

/-!
# Reading documents

Documents, entities and usages are records. A kind is one of five words. The name of a document
and the parent of an entity may be absent or null; lists that are absent are empty.
-/

namespace DesignCoupling

open Json

def EntityKind.labels : List String := EntityKind.all.map EntityKind.label

def EntityKind.reader : Reader EntityKind := .word EntityKind.labels EntityKind.ofLabel?

namespace Entity

/-- An entity of which some fields have been read. -/
structure Draft where
  name : Option String := none
  kind : Option EntityKind := none
  parent : Option (Option String) := none

def form : RecordForm Draft Entity where
  title := "struct EntityRecord"
  fields := [
    ⟨"name", fun d => d.name.isSome, Reader.text.map fun v d => { d with name := some v }⟩,
    ⟨"kind", fun d => d.kind.isSome, EntityKind.reader.map fun v d => { d with kind := some v }⟩,
    ⟨"parent", fun d => d.parent.isSome,
      Reader.optionalText.map fun v d => { d with parent := some v }⟩]
  blank := {}
  finish d :=
    match d.name, d.kind with
    | none, _ => .error "name"
    | some _, none => .error "kind"
    | some name, some kind => .ok ⟨name, kind, d.parent.getD none⟩

def reader : Reader Entity := form.reader

end Entity

namespace Usage

/-- A usage of which some fields have been read. -/
structure Draft where
  source : Option String := none
  target : Option String := none

def form : RecordForm Draft Usage where
  title := "struct UsageRecord"
  fields := [
    ⟨"from", fun d => d.source.isSome, Reader.text.map fun v d => { d with source := some v }⟩,
    ⟨"to", fun d => d.target.isSome, Reader.text.map fun v d => { d with target := some v }⟩]
  blank := {}
  finish d :=
    match d.source, d.target with
    | none, _ => .error "from"
    | some _, none => .error "to"
    | some source, some target => .ok ⟨source, target⟩

def reader : Reader Usage := form.reader

end Usage

namespace Document

/-- A document of which some fields have been read. -/
structure Draft where
  name : Option (Option String) := none
  entities : Option (List Entity) := none
  usages : Option (List Usage) := none

def form : RecordForm Draft Document where
  title := "struct DesignDocument"
  fields := [
    ⟨"name", fun d => d.name.isSome,
      Reader.optionalText.map fun v d => { d with name := some v }⟩,
    ⟨"entities", fun d => d.entities.isSome,
      (Reader.list Entity.reader).map fun v d => { d with entities := some v }⟩,
    ⟨"usages", fun d => d.usages.isSome,
      (Reader.list Usage.reader).map fun v d => { d with usages := some v }⟩]
  blank := {}
  finish d := .ok ⟨d.name.getD none, d.entities.getD [], d.usages.getD []⟩

def reader : Reader Document := form.reader

def parse (text : String) : Except Json.Error Document := reader.readWhole text

end Document

end DesignCoupling
