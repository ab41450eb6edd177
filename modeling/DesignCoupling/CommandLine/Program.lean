import DesignCoupling.CommandLine.Arguments
import DesignCoupling.Coupling.Logged
import DesignCoupling.Document.Logged
import DesignCoupling.Json.Tree

/-!
# The program

A run loads the design, finds all entities that were asked for, computes, and only then writes. It
writes rows of text or a list of objects with the same contents. What it logs is filtered and has no
influence on the rest.
-/

namespace DesignCoupling.CommandLine

/-- A line of the report: an entity, and its efferent coupling where that was asked for. -/
structure Row where
  entity : String
  kind : EntityKind
  value : Option Nat
  deriving DecidableEq, Repr

namespace Row

/-- A row as text: the entity, and its value or else its kind. -/
def text (row : Row) : String :=
  row.entity ++ "\t" ++ (match row.value with | some n => toString n | none => row.kind.label) ++ "\n"

def valueMembers (value : Option Nat) : List (String × Json.Tree) :=
  match value with
  | none => []
  | some n => [("metric", .text Metric.efferentCoupling.abbreviation), ("value", .count n)]

def tree (row : Row) : Json.Tree :=
  .object ([("entity", .text row.entity), ("kind", .text row.kind.label)] ++ valueMembers row.value)

end Row

def render (json : Bool) (rows : List Row) : String :=
  if json then (Json.Tree.list (rows.map Row.tree)).toLines ++ "\n"
  else String.join (rows.map Row.text)

inductive Failure where
  | load (path : String) (error : LoadError)
  | refused (refusal : Design.Refusal)
  deriving DecidableEq, Repr

def Failure.message : Failure → String
  | load path error => "Cannot load design " ++ path ++ ": " ++ error.chain
  | refused refusal => refusal.message

def find (d : Design) (name : String) : Except Failure Entity :=
  match d.get? name with
  | some e => .ok e
  | none => .error (.refused (.notFound name))

/-- The entities to report: those named, or all of a kind in the order of their names. -/
def chosen (d : Design) (names : List String) (kind : EntityKind) : Except Failure (List Entity) :=
  if names = [] then .ok (EntitySet.byName (d.ofKind kind)) else names.mapM (find d)

def efferentRow (P : Provider) (e : Entity) : Logged Row := do
  let n ← P.efferentCouplingLogged e
  return ⟨e.name, e.kind, some n⟩

def relatedRows (P : Provider) (e : Entity) (direct : Bool) : Logged (List Row) := do
  let s ← if direct then P.directRelatedLogged e else P.relatedLogged e
  return s.sorted.map fun x => ⟨x.name, x.kind, none⟩

/-- The rows that a query asks for. All names are resolved before anything is computed. -/
def rows (d : Design) (query : Query) : Logged (Except Failure (List Row)) :=
  match query with
  | .efferent names kind =>
      match chosen d names kind with
      | .error failure => return .error failure
      | .ok entities => do
          let rows ← entities.mapM (efferentRow d.provider)
          return .ok rows
  | .related name direct =>
      match find d name with
      | .error failure => return .error failure
      | .ok e => do
          let rows ← relatedRows d.provider e direct
          return .ok rows

def loadDesign (read : FileReader) (path : String) : Logged (Except Failure Design) :=
  match Document.load read path with
  | .error error => return .error (.load path error)
  | .ok doc => do
      let result ← doc.toDesignLogged
      return result.mapError fun defect => .load path (.invalid defect)

def Command.run (read : FileReader) (c : Command) : Logged (Except Failure String) := do
  match ← loadDesign read c.design with
  | .error failure => return .error failure
  | .ok d =>
      match ← rows d c.query with
      | .error failure => return .error failure
      | .ok rows => return .ok (render c.json rows)

structure Outcome where
  exitCode : Nat
  output : String
  log : List Event
  error : String
  deriving DecidableEq, Repr

def Invocation.threshold (i : Invocation) : Threshold :=
  if i.quiet then .level .error
  else
    match i.verbosity with
    | 0 => .level .warn
    | 1 => .level .info
    | 2 => .level .debug
    | _ => .level .trace

/-- What is set for the log from outside. A text that is more than the name of a threshold is read by
`directives`, which need not understand it. -/
structure Setting where
  text : Option String := none
  directives : String → Option (Event → Bool) := fun _ => none

/-- The events that a setting asks for, if it is understood. -/
def Setting.filter? (s : Setting) : Option (Event → Bool) :=
  s.text.bind fun text =>
    match Threshold.ofText? text with
    | some t => some fun e => t.admits e.level
    | none => s.directives text

/-- Whether a run shows an event. What is set from outside comes before the verbosity. -/
def Invocation.shows (i : Invocation) (setting : Setting) : Event → Bool :=
  setting.filter?.getD fun e => i.threshold.admits e.level

/-- The outcome of a command, with the events that are shown. -/
def Invocation.run (i : Invocation) (setting : Setting) (read : FileReader) : Outcome :=
  let result := i.command.run read
  let log := result.events.filter (i.shows setting)
  match result.value with
  | .ok output => ⟨0, output, log, ""⟩
  | .error failure => ⟨1, "", log, "Error: " ++ failure.message ++ "\n"⟩

def versionLine : String := "designmetrics 0.1.0\n"

def program (arguments : List String) (setting : Setting) (read : FileReader) : Outcome :=
  match parse arguments with
  | .error e => ⟨2, "", [], "error: " ++ e.message ++ "\n"⟩
  | .ok .version => ⟨0, versionLine, [], ""⟩
  | .ok (.run i) => i.run setting read

end DesignCoupling.CommandLine
