import DesignCoupling.Design

/-!
# Histories

Every design is the result of a sequence of calls. Each call is answered, and a call that is refused
leaves the design as it was.
-/

namespace DesignCoupling.Design

inductive Call where
  | addEntity (name : String) (kind : EntityKind)
  | addContainment (parent child : String)
  | addUsage (source target : String)
  deriving DecidableEq, Repr

inductive Reply where
  | number (i : Nat)
  | contained
  | refused (refusal : Refusal)
  | linked (done : Bool)
  deriving DecidableEq, Repr

/-- Answers a call, with the design after it. -/
def perform (d : Design) (call : Call) : Reply × Design :=
  match call with
  | .addEntity name kind =>
      let (i, d) := d.addEntity name kind
      (.number i, d)
  | .addContainment parent child =>
      match d.addContainment parent child with
      | .ok d => (.contained, d)
      | .error refusal => (.refused refusal, d)
  | .addUsage source target =>
      match d.addUsage source target with
      | some d => (.linked true, d)
      | none => (.linked false, d)

def performAll (d : Design) (calls : List Call) : Design :=
  calls.foldl (fun d call => (d.perform call).2) d

/-- The design that a sequence of calls builds from nothing. -/
def ofCalls (calls : List Call) : Design := empty.performAll calls

@[simp] theorem performAll_nil (d : Design) : d.performAll [] = d := rfl

@[simp] theorem performAll_cons (d : Design) (call : Call) (calls : List Call) :
    d.performAll (call :: calls) = (d.perform call).2.performAll calls := rfl

theorem performAll_append (d : Design) (calls more : List Call) :
    d.performAll (calls ++ more) = (d.performAll calls).performAll more :=
  List.foldl_append

end DesignCoupling.Design
