import DesignCoupling.Text.Quoted

/-!
# The log

Loading a design and computing coupling leave events behind. An event has a level, the part of the
program it comes from, and a line of text. Which of them are shown is decided by a threshold.
-/

namespace DesignCoupling

/-- Weight of an event, heaviest first. -/
inductive Level where
  | error
  | warn
  | info
  | debug
  | trace
  deriving DecidableEq, Repr

namespace Level

/-- Every level, heaviest first. -/
def all : List Level := [error, warn, info, debug, trace]

def rank : Level → Nat
  | error => 1
  | warn => 2
  | info => 3
  | debug => 4
  | trace => 5

def label : Level → String
  | error => "ERROR"
  | warn => "WARN"
  | info => "INFO"
  | debug => "DEBUG"
  | trace => "TRACE"

end Level

/-- Which events are shown: none, or those at least as heavy as a level. -/
inductive Threshold where
  | off
  | level (level : Level)
  deriving DecidableEq, Repr

namespace Threshold

def all : List Threshold := .off :: Level.all.map .level

def rank : Threshold → Nat
  | off => 0
  | level l => l.rank

def word : Threshold → String
  | off => "off"
  | level .error => "error"
  | level .warn => "warn"
  | level .info => "info"
  | level .debug => "debug"
  | level .trace => "trace"

def admits (t : Threshold) (l : Level) : Bool := l.rank ≤ t.rank

/-- The threshold that a text is a name of: its word in any case or its number. Nothing at all names
that for errors. -/
def ofText? (text : String) : Option Threshold :=
  let lower := text.map Char.toLower
  if lower = "" then some (.level .error)
  else all.find? fun t => t.word == lower || toString t.rank == lower

end Threshold

inductive Event where
  | skipped (source target : String)
  | loaded (design : Option String) (entities usages : Nat)
  | direct (entity : String) (related : Nat)
  | related (entity : String) (members related : Nat)
  | efferent (entity : String) (value : Nat)
  deriving DecidableEq, Repr

namespace Event

def level : Event → Level
  | skipped _ _ => .warn
  | loaded _ _ _ => .info
  | direct _ _ => .debug
  | related _ _ _ => .debug
  | efferent _ _ => .debug

def origin : Event → String
  | skipped _ _ => "designmetrics::design::loader"
  | loaded _ _ _ => "designmetrics::design::loader"
  | direct _ _ => "designmetrics::metrics::engine"
  | related _ _ _ => "designmetrics::metrics::engine"
  | efferent _ _ => "designmetrics::metrics::efferent"

def text : Event → String
  | skipped source target =>
      "Skipping usage between unknown entities from=" ++ source ++ " to=" ++ target
  | loaded design entities usages =>
      "Loaded design graph design=" ++ Text.quoted (design.getD "<unnamed>") ++
        " entities=" ++ toString entities ++ " usages=" ++ toString usages
  | direct entity count =>
      "Computed direct related entities entity=" ++ entity ++ " related=" ++ toString count
  | related entity members count =>
      "Computed related entities entity=" ++ entity ++ " members=" ++ toString members ++
        " related=" ++ toString count
  | efferent entity value =>
      "Computed efferent coupling entity=" ++ entity ++ " ce=" ++ toString value

def line (e : Event) : String := e.level.label ++ " " ++ e.origin ++ ": " ++ e.text

end Event

/-- A value with the events that computing it left behind, oldest first. -/
structure Logged (α : Type) where
  value : α
  events : List Event

namespace Logged

instance : Monad Logged where
  pure a := ⟨a, []⟩
  bind x f :=
    let y := f x.value
    ⟨y.value, x.events ++ y.events⟩

def tell (e : Event) : Logged Unit := ⟨(), [e]⟩

@[simp] theorem value_pure {α : Type} (a : α) : (pure a : Logged α).value = a := rfl

@[simp] theorem events_pure {α : Type} (a : α) : (pure a : Logged α).events = [] := rfl

@[simp] theorem value_bind {α β : Type} (x : Logged α) (f : α → Logged β) :
    (x >>= f).value = (f x.value).value := rfl

@[simp] theorem events_bind {α β : Type} (x : Logged α) (f : α → Logged β) :
    (x >>= f).events = x.events ++ (f x.value).events := rfl

@[simp] theorem events_tell (e : Event) : (tell e).events = [e] := rfl

instance : LawfulMonad Logged := LawfulMonad.mk' Logged
  (fun x => congrArg (Logged.mk x.value) (List.append_nil x.events))
  (fun _ _ => rfl)
  (fun x f g => congrArg (Logged.mk (g (f x.value).value).value) (List.append_assoc ..))

@[simp] theorem value_mapM {α β : Type} (f : α → Logged β) (xs : List α) :
    (xs.mapM f).value = xs.map fun x => (f x).value := by
  induction xs with
  | nil => rfl
  | cons x xs ih => rw [List.mapM_cons, value_bind, value_bind, value_pure, ih, List.map_cons]

@[simp] theorem events_mapM {α β : Type} (f : α → Logged β) (xs : List α) :
    (xs.mapM f).events = xs.flatMap fun x => (f x).events := by
  induction xs with
  | nil => rfl
  | cons x xs ih =>
      rw [List.mapM_cons, events_bind, events_bind, events_pure, List.append_nil, ih,
        List.flatMap_cons]

end Logged

end DesignCoupling
