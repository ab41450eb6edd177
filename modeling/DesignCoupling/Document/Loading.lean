import DesignCoupling.Document.Reading
import DesignCoupling.Document.Validation

/-!
# Loading documents

A valid document becomes a design: first all entities, then their containers, then the usages, each
in the order of the document. A file is loaded by decoding its bytes, reading the document and
building the design; each step has errors of its own.
-/

namespace DesignCoupling

namespace Document

/-- The entities of a document, all at the top. -/
def declare (doc : Document) : Design :=
  doc.entities.foldl (fun d e => (d.addEntity e.name e.kind).2) .empty

/-- Puts an entity into its container, if it has one. -/
def place (d : Design) (e : Entity) : Except Design.Refusal Design :=
  match e.parent with
  | none => .ok d
  | some parent => d.addContainment parent e.name

/-- Links the ends of a usage, if both are known. -/
def connect (d : Design) (u : Usage) : Design := (d.addUsage u.source u.target).getD d

/-- The design that a document describes, whether or not it is valid. -/
def assemble (doc : Document) : Except Design.Refusal Design := do
  let placed ← doc.entities.foldlM place doc.declare
  return doc.usages.foldl connect placed

/-- The design of a valid document. -/
def toDesign (doc : Document) : Except Defect Design := do
  doc.validate
  doc.assemble.mapError .refused

end Document

inductive ReadError where
  | notFound
  | notDirectory
  | isDirectory
  | nameTooLong
  | badName
  | notUtf8
  | other (text : String)
  deriving DecidableEq, Repr

def ReadError.message : ReadError → String
  | notFound => "No such file or directory (os error 2)"
  | notDirectory => "Not a directory (os error 20)"
  | isDirectory => "Is a directory (os error 21)"
  | nameTooLong => "File name too long (os error 36)"
  | badName => "file name contained an unexpected NUL byte"
  | notUtf8 => "stream did not contain valid UTF-8"
  | other text => text

inductive LoadError where
  | unreadable (error : ReadError)
  | malformed (error : Json.Error)
  | invalid (defect : Defect)
  deriving DecidableEq, Repr

namespace LoadError

/-- The wording of the error that lies behind a load error, if it has one of its own. -/
def source? : LoadError → Option String
  | unreadable error => some error.message
  | malformed error => some error.message
  | invalid _ => none

def message : LoadError → String
  | unreadable error => "Failed to read file: " ++ error.message
  | malformed error => "Failed to parse JSON: " ++ error.message
  | invalid defect => "Invalid design: " ++ defect.message

/-- The wording of a load error, followed by that of the error behind it. -/
def chain (error : LoadError) : String :=
  match error.source? with
  | none => error.message
  | some source => error.message ++ ": " ++ source

end LoadError

abbrev FileReader := String → Except ReadError ByteArray

namespace Document

def ofText (text : String) : Except LoadError Document := (parse text).mapError .malformed

def ofBytes (bytes : ByteArray) : Except LoadError Document :=
  match String.fromUTF8? bytes with
  | none => .error (.unreadable .notUtf8)
  | some text => ofText text

def load (read : FileReader) (path : String) : Except LoadError Document :=
  match read path with
  | .error error => .error (.unreadable error)
  | .ok bytes => ofBytes bytes

end Document

end DesignCoupling
