import DesignCoupling.Kind

/-!
# Arguments

A command names a design file and what to report of it. Options may stand anywhere between the
other arguments, until two dashes end them; verbosity may be given before the command or after it.
-/

namespace DesignCoupling.CommandLine

inductive Query where
  | efferent (names : List String) (kind : EntityKind)
  | related (name : String) (direct : Bool)
  deriving DecidableEq, Repr

structure Command where
  design : String
  query : Query
  json : Bool
  deriving DecidableEq, Repr

/-- A command with its verbosity: how often more was asked for, and whether to be quiet. -/
structure Invocation where
  command : Command
  verbosity : Nat
  quiet : Bool
  deriving DecidableEq, Repr

/-- What a list of arguments asks for. -/
inductive Request where
  | version
  | run (invocation : Invocation)
  deriving DecidableEq, Repr

inductive UsageError where
  | unknownCommand (name : String)
  | unexpectedArgument (text : String)
  | repeatedOption (name : String)
  | missingValue (option : String)
  | badKind (text : String)
  | missingArgument (name : String)
  deriving DecidableEq, Repr

def UsageError.message : UsageError → String
  | unknownCommand name => "unrecognized subcommand '" ++ name ++ "'"
  | unexpectedArgument text => "unexpected argument '" ++ text ++ "' found"
  | repeatedOption name => "the argument '" ++ name ++ "' cannot be used multiple times"
  | missingValue option => "a value is required for '" ++ option ++ "' but none was supplied"
  | badKind text => "invalid value '" ++ text ++ "': " ++ EntityKind.unknownMessage text
  | missingArgument name => "the required argument <" ++ name ++ "> was not provided"

inductive Switch where
  | verbose
  | quiet
  | version
  | direct
  | json
  deriving DecidableEq, Repr

def Switch.long : Switch → String
  | verbose => "verbose"
  | quiet => "quiet"
  | version => "version"
  | direct => "direct"
  | json => "json"

def Switch.short? : Switch → Option Char
  | verbose => some 'v'
  | quiet => some 'q'
  | version => some 'V'
  | direct => some 'd'
  | json => none

/-- The options that are known in some place: switches, and perhaps the kind, which has a value. -/
structure Options where
  switches : List Switch
  hasKind : Bool

namespace Options

def top : Options := ⟨[.verbose, .quiet, .version], false⟩

def efferent : Options := ⟨[.verbose, .quiet, .json], true⟩

def related : Options := ⟨[.verbose, .quiet, .json, .direct], false⟩

def short? (known : Options) (c : Char) : Option Switch :=
  known.switches.find? fun s => s.short? == some c

def long? (known : Options) (name : List Char) : Option Switch :=
  known.switches.find? fun s => s.long.toList == name

end Options

/-- What one argument gives. -/
inductive Item where
  | switch (s : Switch)
  | kind (text : String)
  | kindNext
  | value (text : String)
  | endOfOptions
  deriving DecidableEq, Repr

/-- A value behind the letter of its option, perhaps after an equals sign. -/
def attached (s : List Char) : String :=
  match s with
  | '=' :: rest => String.ofList rest
  | _ => String.ofList s

/-- The letters behind a dash. The letter of an option with a value takes all that follows it, and
nothing is read behind a version. -/
def readLetters (known : Options) : List Char → Except UsageError (List Item)
  | [] => .ok []
  | c :: rest =>
      match known.short? c with
      | some .version => .ok [.switch .version]
      | some s =>
          match readLetters known rest with
          | .ok items => .ok (.switch s :: items)
          | .error e => .error e
      | none =>
          if known.hasKind ∧ c = 'k' then
            if rest = [] then .ok [.kindNext] else .ok [.kind (attached rest)]
          else .error (.unexpectedArgument (String.ofList ['-', c]))

/-- The word behind two dashes. A switch takes no value. -/
def readLong (known : Options) (s : List Char) : Except UsageError Item :=
  let name := s.takeWhile (· ≠ '=')
  let value := s.dropWhile (· ≠ '=')
  let unexpected := UsageError.unexpectedArgument (String.ofList ('-' :: '-' :: s))
  if known.hasKind ∧ name = "kind".toList then
    if value = [] then .ok .kindNext else .ok (.kind (String.ofList (value.drop 1)))
  else
    match known.long? name with
    | some s => if value = [] then .ok (.switch s) else .error unexpected
    | none => .error unexpected

/-- What an argument gives while options are read. A dash alone is a value. -/
def readArgument (known : Options) (argument : String) : Except UsageError (List Item) :=
  match argument.toList with
  | ['-', '-'] => .ok [.endOfOptions]
  | '-' :: '-' :: s =>
      match readLong known s with
      | .ok item => .ok [item]
      | .error e => .error e
  | '-' :: c :: s => readLetters known (c :: s)
  | _ => .ok [.value argument]

/-- What has been given after a command so far. -/
structure Given where
  verbosity : Nat := 0
  quiet : Bool := false
  json : Bool := false
  direct : Bool := false
  kind : Option EntityKind := none
  values : List String := []
  deriving DecidableEq, Repr

namespace Given

/-- Takes note of a switch. Only verbosity may be repeated. -/
def addSwitch (g : Given) (s : Switch) : Except UsageError Given :=
  let again := UsageError.repeatedOption ("--" ++ s.long)
  match s with
  | .verbose => .ok { g with verbosity := g.verbosity + 1 }
  | .quiet => if g.quiet then .error again else .ok { g with quiet := true }
  | .json => if g.json then .error again else .ok { g with json := true }
  | .direct => if g.direct then .error again else .ok { g with direct := true }
  | .version => .error (.unexpectedArgument "--version")

def addKind (g : Given) (text : String) : Except UsageError Given :=
  match g.kind, EntityKind.ofText? text with
  | some _, _ => .error (.repeatedOption "--kind")
  | none, none => .error (.badKind text)
  | none, some kind => .ok { g with kind := some kind }

def addValue (g : Given) (text : String) : Given := { g with values := g.values ++ [text] }

end Given

inductive Expecting where
  | anything
  | kind
  | values
  deriving DecidableEq, Repr

def addItem (state : Given × Expecting) (item : Item) : Except UsageError (Given × Expecting) :=
  match item, state with
  | .switch s, (g, .anything) => (g.addSwitch s).map fun g => (g, .anything)
  | .kind text, (g, .anything) => (g.addKind text).map fun g => (g, .anything)
  | .kindNext, (g, .anything) => .ok (g, .kind)
  | .value text, (g, .anything) => .ok (g.addValue text, .anything)
  | .endOfOptions, (g, .anything) => .ok (g, .values)
  | .value text, (g, .kind) => (g.addKind text).map fun g => (g, .anything)
  | .value text, (g, .values) => .ok (g.addValue text, .values)
  | _, _ => .error (.missingValue "--kind")

def addArgument (known : Options) (state : Given × Expecting) (argument : String) :
    Except UsageError (Given × Expecting) :=
  match state with
  | (g, .values) => .ok (g.addValue argument, .values)
  | _ =>
      match readArgument known argument with
      | .error e => .error e
      | .ok items => items.foldlM addItem state

def gather (known : Options) (arguments : List String) : Except UsageError Given :=
  match arguments.foldlM (addArgument known) ({}, .anything) with
  | .error e => .error e
  | .ok (_, .kind) => .error (.missingValue "--kind")
  | .ok (g, _) => .ok g

/-- The command for efferent coupling: a design, and the names to report. -/
def efferentCommand (g : Given) : Except UsageError Command :=
  match g.values with
  | [] | "" :: _ => .error (.missingArgument "DESIGN")
  | design :: names => .ok ⟨design, .efferent names (g.kind.getD .classDecl), g.json⟩

/-- The command for related entities: a design and a name. -/
def relatedCommand (g : Given) : Except UsageError Command :=
  match g.values with
  | [] | "" :: _ => .error (.missingArgument "DESIGN")
  | [_] => .error (.missingArgument "ENTITY")
  | [design, name] => .ok ⟨design, .related name g.direct, g.json⟩
  | _ :: _ :: text :: _ => .error (.unexpectedArgument text)

def command? (name : String) : Option (Options × (Given → Except UsageError Command)) :=
  if name = "ce" then some (.efferent, efferentCommand)
  else if name = "related" then some (.related, relatedCommand)
  else none

/-- Joins what was given before the command with what was given after it. Verbosity after the
command counts alone. -/
def invocation (before after : Given) (command : Command) : Invocation where
  command := command
  verbosity := if after.verbosity = 0 then before.verbosity else after.verbosity
  quiet := before.quiet || after.quiet

/-- Takes note of what stands before the command; a version that is asked for is the answer. -/
def addTop (g : Given) : List Item → Except UsageError (Option Given)
  | [] => .ok (some g)
  | .switch .version :: _ => .ok none
  | .switch s :: items =>
      match g.addSwitch s with
      | .ok g => addTop g items
      | .error e => .error e
  | _ :: _ => .error (.missingArgument "COMMAND")

/-- What a list of arguments asks for, when `g` has been given. -/
def parseFrom (g : Given) : List String → Except UsageError Request
  | [] => .error (.missingArgument "COMMAND")
  | argument :: arguments =>
      match readArgument .top argument with
      | .error e => .error e
      | .ok [.value name] =>
          match command? name with
          | none => .error (.unknownCommand name)
          | some (known, toCommand) => do
              let after ← gather known arguments
              let command ← toCommand after
              return .run (invocation g after command)
      | .ok items =>
          match addTop g items with
          | .error e => .error e
          | .ok none => .ok .version
          | .ok (some g) => parseFrom g arguments

/-- What a list of arguments asks for. -/
def parse (arguments : List String) : Except UsageError Request := parseFrom {} arguments

end DesignCoupling.CommandLine
