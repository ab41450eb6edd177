import DesignCoupling.CommandLine.Arguments

/-!
# Command lines for commands

Every command can be given: its options first, and then, behind two dashes, the file and the names
just as they are, though they begin with dashes themselves.
-/

namespace DesignCoupling.CommandLine

/-- A command line for a command. -/
def arguments (c : Command) : List String :=
  let form := if c.json then ["--json"] else []
  match c.query with
  | .efferent names kind => "ce" :: (form ++ ["--kind", kind.label, "--"] ++ c.design :: names)
  | .related name direct =>
      "related" :: (form ++ (if direct then ["--direct"] else []) ++ ["--"] ++ [c.design, name])

theorem foldlM_values (known : Options) (g : Given) (values : List String) :
    values.foldlM (addArgument known) (g, .values) =
      .ok ({ g with values := g.values ++ values }, .values) := by
  induction values generalizing g with
  | nil => simp [pure, Except.pure]
  | cons value values ih =>
      rw [List.foldlM_cons, addArgument]
      change values.foldlM (addArgument known) (g.addValue value, .values) = _
      rw [ih, Given.addValue, List.append_assoc]
      rfl

theorem gather_append {known : Options} {options : List String} {g : Given}
    (h : options.foldlM (addArgument known) ({}, .anything) = .ok (g, .values))
    (values : List String) :
    gather known (options ++ values) = .ok { g with values := g.values ++ values } := by
  rw [gather, List.foldlM_append, h]
  simp only [bind, Except.bind, foldlM_values]

theorem efferentCommand_eq {g : Given} {design : String} {names : List String}
    (hvalues : g.values = design :: names) (h : design ≠ "") :
    efferentCommand g = .ok ⟨design, .efferent names (g.kind.getD .classDecl), g.json⟩ := by
  rw [efferentCommand, hvalues]
  split <;> simp_all

theorem relatedCommand_eq {g : Given} {design name : String} (hvalues : g.values = [design, name])
    (h : design ≠ "") : relatedCommand g = .ok ⟨design, .related name g.direct, g.json⟩ := by
  rw [relatedCommand, hvalues]
  split <;> simp_all

theorem parse_of_gather {name : String} {known : Options} {arguments : List String} {g : Given}
    {toCommand : Given → Except UsageError Command} {c : Command}
    (hname : readArgument .top name = .ok [.value name])
    (hcommand : command? name = some (known, toCommand)) (hgather : gather known arguments = .ok g)
    (hc : toCommand g = .ok c) :
    parse (name :: arguments) = .ok (.run (invocation {} g c)) := by
  simp only [parse, parseFrom, hname, hcommand, hgather, bind, Except.bind, hc]
  rfl

/-- Every command that names a file is accepted from some command line. -/
theorem parse_arguments {c : Command} (h : c.design ≠ "") :
    parse (arguments c) = .ok (.run ⟨c, 0, false⟩) := by
  obtain ⟨design, query, json⟩ := c
  cases query with
  | efferent names kind =>
      have hoptions : ((if json then ["--json"] else []) ++ ["--kind", kind.label, "--"]).foldlM
          (addArgument .efferent) ({}, .anything) =
          .ok ({ json := json, kind := some kind }, .values) := by
        cases json <;> cases kind <;> rfl
      exact parse_of_gather rfl rfl (gather_append hoptions (design :: names))
        (efferentCommand_eq rfl h)
  | related name direct =>
      have hoptions : ((if json then ["--json"] else []) ++
          (if direct then ["--direct"] else []) ++ ["--"]).foldlM
          (addArgument .related) ({}, .anything) =
          .ok ({ json := json, direct := direct }, .values) := by
        cases json <;> cases direct <;> rfl
      exact parse_of_gather rfl rfl (gather_append hoptions [design, name])
        (relatedCommand_eq rfl h)

end DesignCoupling.CommandLine
