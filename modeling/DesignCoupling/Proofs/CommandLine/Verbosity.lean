import DesignCoupling.Proofs.CommandLine.Arguments

/-!
# Verbosity

Options for the verbosity may be put into a command line, taken out of it and moved about. As long
as the line is accepted it asks for the same command. All lines that agree apart from these options
are compared with the line that has none of them, which is accepted if one of them is.
-/

namespace DesignCoupling.CommandLine

/-- Whether an argument is an option for the verbosity: a long one, or letters behind a dash. -/
def setsVerbosity (argument : String) : Bool :=
  match argument.toList with
  | '-' :: '-' :: s => s == "verbose".toList || s == "quiet".toList
  | '-' :: c :: s => (c :: s).all fun c => c == 'v' || c == 'q'
  | _ => false

/-- The arguments less the options for the verbosity, of which there are none behind two dashes. -/
def plain : List String → List String
  | [] => []
  | argument :: arguments =>
      if argument = "--" then argument :: arguments
      else if setsVerbosity argument then plain arguments
      else argument :: plain arguments

/-- The command that is to be run, if any. -/
def Request.command? : Request → Option Command
  | version => none
  | run i => some i.command

theorem plain_of_setsVerbosity {argument : String} (h : setsVerbosity argument = true)
    (arguments : List String) : plain (argument :: arguments) = plain arguments := by
  have hne : argument ≠ "--" := by
    rintro rfl
    exact absurd h (by decide)
  rw [plain, if_neg hne, if_pos h]

theorem plain_cons {argument : String} (hne : argument ≠ "--") (h : setsVerbosity argument = false)
    (arguments : List String) : plain (argument :: arguments) = argument :: plain arguments := by
  rw [plain, if_neg hne, if_neg (by simp [h])]

def Switch.IsVerbosity (s : Switch) : Prop := s = .verbose ∨ s = .quiet

/-- Both options for the verbosity are known, by their words and by their letters. -/
structure Options.KnowVerbosity (known : Options) : Prop where
  verbose : readLong known ['v', 'e', 'r', 'b', 'o', 's', 'e'] = .ok (.switch .verbose)
  quiet : readLong known ['q', 'u', 'i', 'e', 't'] = .ok (.switch .quiet)
  v : known.short? 'v' = some .verbose
  q : known.short? 'q' = some .quiet

theorem Options.knowVerbosity_top : Options.top.KnowVerbosity := ⟨rfl, rfl, rfl, rfl⟩

theorem knowVerbosity_of_command? {name : String} {known : Options}
    {toCommand : Given → Except UsageError Command} (h : command? name = some (known, toCommand)) :
    known.KnowVerbosity := by
  unfold command? at h
  split at h
  · cases h
    exact ⟨rfl, rfl, rfl, rfl⟩
  · split at h
    · cases h
      exact ⟨rfl, rfl, rfl, rfl⟩
    · cases h

section Reading

variable {known : Options}

theorem readLetters_verbosity (hknown : known.KnowVerbosity) {s : List Char}
    (h : ∀ c ∈ s, c = 'v' ∨ c = 'q') :
    ∃ switches : List Switch, readLetters known s = .ok (switches.map .switch) ∧
      ∀ s ∈ switches, s.IsVerbosity := by
  induction s with
  | nil => exact ⟨[], rfl, by simp⟩
  | cons c s ih =>
      obtain ⟨hc, hs⟩ := List.forall_mem_cons.1 h
      obtain ⟨switches, hread, hswitches⟩ := ih hs
      rcases hc with rfl | rfl
      · refine ⟨.verbose :: switches, ?_, List.forall_mem_cons.2 ⟨.inl rfl, hswitches⟩⟩
        simp only [readLetters, hknown.v, hread, List.map_cons]
      · refine ⟨.quiet :: switches, ?_, List.forall_mem_cons.2 ⟨.inr rfl, hswitches⟩⟩
        simp only [readLetters, hknown.q, hread, List.map_cons]

theorem readArgument_verbosity (hknown : known.KnowVerbosity) {argument : String}
    (h : setsVerbosity argument = true) :
    ∃ switches : List Switch, readArgument known argument = .ok (switches.map .switch) ∧
      ∀ s ∈ switches, s.IsVerbosity := by
  unfold setsVerbosity at h
  unfold readArgument
  split at h
  · next s hs =>
      rw [hs]
      simp only [Bool.or_eq_true, beq_iff_eq] at h
      rcases h with rfl | rfl
      · exact ⟨[.verbose], by simp [hknown.verbose], by simp [Switch.IsVerbosity]⟩
      · exact ⟨[.quiet], by simp [hknown.quiet], by simp [Switch.IsVerbosity]⟩
  · next c s hdash hs =>
      have hletters : ∀ c' ∈ c :: s, c' = 'v' ∨ c' = 'q' := by
        simpa only [List.all_eq_true, Bool.or_eq_true, beq_iff_eq] using h
      obtain ⟨switches, hread, hswitches⟩ := readLetters_verbosity hknown hletters
      have hc : c ≠ '-' := by
        rcases hletters c List.mem_cons_self with rfl | rfl <;> decide
      refine ⟨switches, ?_, hswitches⟩
      rw [hs]
      simpa [hc] using hread
  · cases h

/-- What an option gives, and neither a value nor the end of the options. -/
inductive Item.IsOption : Item → Prop
  | switch (s : Switch) : IsOption (.switch s)
  | kind (text : String) : IsOption (.kind text)
  | kindNext : IsOption .kindNext

theorem isOption_of_readLetters {s : List Char} {items : List Item}
    (h : readLetters known s = .ok items) : ∀ item ∈ items, item.IsOption := by
  induction s generalizing items with
  | nil =>
      cases h
      simp
  | cons c s ih =>
      unfold readLetters at h
      split at h
      · cases h
        exact List.forall_mem_singleton.2 (.switch _)
      · split at h
        · next hrest =>
            cases h
            exact List.forall_mem_cons.2 ⟨.switch _, ih hrest⟩
        · cases h
      · split at h
        · split at h
          · cases h
            exact List.forall_mem_singleton.2 .kindNext
          · cases h
            exact List.forall_mem_singleton.2 (.kind _)
        · cases h

theorem isOption_of_readLong {s : List Char} {item : Item} (h : readLong known s = .ok item) :
    item.IsOption := by
  unfold readLong at h
  dsimp only at h
  split at h
  · split at h <;> cases h <;> constructor
  · split at h
    · split at h <;> cases h
      constructor
    · cases h

theorem eq_of_endOfOptions_mem {argument : String} {items : List Item}
    (h : readArgument known argument = .ok items) (hmem : .endOfOptions ∈ items) :
    argument = "--" := by
  unfold readArgument at h
  split at h
  · next hdashes => exact String.toList_injective hdashes
  · next s _ _ =>
      cases hlong : readLong known s with
      | error e => simp [hlong] at h
      | ok item =>
          simp only [hlong, Except.ok.injEq] at h
          subst h
          obtain rfl := List.mem_singleton.1 hmem
          cases isOption_of_readLong hlong
  · cases isOption_of_readLetters h _ hmem
  · cases h
    simp at hmem

end Reading

/-- The same has been given apart from the verbosity, and quiet only if it is on both sides. -/
structure Given.Plainer (g₀ g : Given) : Prop where
  json : g₀.json = g.json
  direct : g₀.direct = g.direct
  kind : g₀.kind = g.kind
  values : g₀.values = g.values
  quiet : g₀.quiet = true → g.quiet = true

namespace Given.Plainer

variable {g₀ g g' : Given}

theorem refl (g : Given) : g.Plainer g := ⟨rfl, rfl, rfl, rfl, id⟩

theorem addSwitch (h : g₀.Plainer g) {s : Switch} (hs : g.addSwitch s = .ok g') :
    ∃ g₀', g₀.addSwitch s = .ok g₀' ∧ g₀'.Plainer g' := by
  obtain ⟨hjson, hdirect, hkind, hvalues, hquiet⟩ := h
  cases s with
  | verbose =>
      cases hs
      exact ⟨_, rfl, hjson, hdirect, hkind, hvalues, hquiet⟩
  | quiet =>
      simp only [Given.addSwitch] at hs ⊢
      split at hs
      · cases hs
      · next hloud =>
          cases hs
          exact ⟨_, if_neg (hloud ∘ hquiet), hjson, hdirect, hkind, hvalues, id⟩
  | json =>
      simp only [Given.addSwitch, hjson] at hs ⊢
      split at hs
      · cases hs
      · next hfresh =>
          cases hs
          exact ⟨_, if_neg hfresh, rfl, hdirect, hkind, hvalues, hquiet⟩
  | direct =>
      simp only [Given.addSwitch, hdirect] at hs ⊢
      split at hs
      · cases hs
      · next hfresh =>
          cases hs
          exact ⟨_, if_neg hfresh, hjson, rfl, hkind, hvalues, hquiet⟩
  | version => cases hs

theorem addVerbosity (h : g₀.Plainer g) {s : Switch} (hverbosity : s.IsVerbosity)
    (hs : g.addSwitch s = .ok g') : g₀.Plainer g' := by
  obtain ⟨hjson, hdirect, hkind, hvalues, hquiet⟩ := h
  rcases hverbosity with rfl | rfl
  · cases hs
    exact ⟨hjson, hdirect, hkind, hvalues, hquiet⟩
  · simp only [Given.addSwitch] at hs
    split at hs
    · cases hs
    · cases hs
      exact ⟨hjson, hdirect, hkind, hvalues, fun _ => rfl⟩

theorem addKind (h : g₀.Plainer g) {text : String} (hs : g.addKind text = .ok g') :
    ∃ g₀', g₀.addKind text = .ok g₀' ∧ g₀'.Plainer g' := by
  obtain ⟨hjson, hdirect, hkind, hvalues, hquiet⟩ := h
  unfold Given.addKind at hs ⊢
  rw [hkind]
  split at hs
  · cases hs
  · cases hs
  · cases hs
    exact ⟨_, rfl, hjson, hdirect, rfl, hvalues, hquiet⟩

theorem addValue (h : g₀.Plainer g) (text : String) :
    (g₀.addValue text).Plainer (g.addValue text) :=
  ⟨h.json, h.direct, h.kind, congrArg (· ++ [text]) h.values, h.quiet⟩

theorem command_eq (h : g₀.Plainer g) {name : String} {known : Options}
    {toCommand : Given → Except UsageError Command}
    (hname : command? name = some (known, toCommand)) : toCommand g₀ = toCommand g := by
  unfold command? at hname
  split at hname
  · cases hname
    simp only [efferentCommand, h.values, h.kind, h.json]
  · split at hname
    · cases hname
      simp only [relatedCommand, h.values, h.direct, h.json]
    · cases hname

end Given.Plainer

theorem map_eq_ok_iff {α β ε : Type} {f : α → β} {x : Except ε α} {b : β} :
    x.map f = .ok b ↔ ∃ a, x = .ok a ∧ f a = b := by
  cases x <;> simp [Except.map]

theorem foldlM_cons_eq_ok_iff {α β ε : Type} {f : β → α → Except ε β} {x : α} {xs : List α}
    {b b' : β} :
    (x :: xs).foldlM f b = .ok b' ↔ ∃ b₁, f b x = .ok b₁ ∧ xs.foldlM f b₁ = .ok b' := by
  rw [List.foldlM_cons]
  cases f b x <;> simp [bind, Except.bind]

theorem addArgument_eq_ok_iff {known : Options} {g : Given} {expecting : Expecting}
    (h : expecting ≠ .values) {argument : String} {state : Given × Expecting} :
    addArgument known (g, expecting) argument = .ok state ↔
      ∃ items, readArgument known argument = .ok items ∧
        items.foldlM addItem (g, expecting) = .ok state := by
  cases expecting with
  | values => exact absurd rfl h
  | _ => cases hread : readArgument known argument <;> simp [addArgument, hread]

theorem eq_endOfOptions_of_addItem {g g' : Given} {expecting : Expecting} {item : Item}
    (h : expecting ≠ .values) (hitem : addItem (g, expecting) item = .ok (g', .values)) :
    item = .endOfOptions := by
  have hmap : ∀ {x : Except UsageError Given},
      x.map (fun g => (g, Expecting.anything)) ≠ .ok (g', .values) := by
    intro x hx
    obtain ⟨_, _, hstate⟩ := map_eq_ok_iff.1 hx
    cases hstate
  cases expecting with
  | anything =>
      cases item with
      | endOfOptions => rfl
      | switch s => exact absurd hitem hmap
      | kind text => exact absurd hitem hmap
      | _ => cases hitem
  | kind =>
      cases item with
      | value text => exact absurd hitem hmap
      | _ => cases hitem
  | values => exact absurd rfl h

theorem endOfOptions_mem_of_addItems {g g' : Given} {expecting : Expecting} {items : List Item}
    (h : expecting ≠ .values) (hitems : items.foldlM addItem (g, expecting) = .ok (g', .values)) :
    .endOfOptions ∈ items := by
  induction items generalizing g expecting with
  | nil =>
      cases hitems
      exact absurd rfl h
  | cons item items ih =>
      obtain ⟨⟨g₁, expecting₁⟩, hitem, hrest⟩ := foldlM_cons_eq_ok_iff.1 hitems
      by_cases hended : expecting₁ = .values
      · subst hended
        rw [eq_endOfOptions_of_addItem h hitem]
        exact List.mem_cons_self
      · exact List.mem_cons_of_mem item (ih hended hrest)

theorem addTop_switch_eq_ok_iff {g : Given} {s : Switch} {items : List Item} {o : Option Given}
    (h : s ≠ .version) : addTop g (.switch s :: items) = .ok o ↔
      ∃ g', g.addSwitch s = .ok g' ∧ addTop g' items = .ok o := by
  cases s with
  | version => exact absurd rfl h
  | _ =>
      simp only [addTop]
      cases g.addSwitch _ <;> simp

theorem readArgument_of_parseFrom {g : Given} {argument : String} {arguments : List String}
    {r : Request} (h : parseFrom g (argument :: arguments) = .ok r) :
    ∃ items, readArgument .top argument = .ok items := by
  cases hread : readArgument .top argument with
  | error e => simp [parseFrom, hread] at h
  | ok items => exact ⟨items, rfl⟩

theorem parseFrom_name_eq_ok_iff {g : Given} {argument name : String} {arguments : List String}
    {r : Request} (hread : readArgument .top argument = .ok [.value name]) :
    parseFrom g (argument :: arguments) = .ok r ↔ ∃ known toCommand after command,
      command? name = some (known, toCommand) ∧ gather known arguments = .ok after ∧
        toCommand after = .ok command ∧ r = .run (invocation g after command) := by
  simp only [parseFrom, hread]
  constructor
  · intro h
    split at h
    · cases h
    · next known toCommand hname =>
        cases hafter : gather known arguments with
        | error e => simp [hafter, bind, Except.bind] at h
        | ok after =>
            cases hcommand : toCommand after with
            | error e => simp [hafter, hcommand, bind, Except.bind] at h
            | ok command =>
                obtain rfl : .run (invocation g after command) = r := by
                  simpa [hafter, hcommand, bind, Except.bind, pure, Except.pure] using h
                exact ⟨known, toCommand, after, command, hname, hafter, hcommand, rfl⟩
  · rintro ⟨known, toCommand, after, command, hname, hafter, hcommand, rfl⟩
    simp only [hname, hafter, hcommand, bind, Except.bind, pure, Except.pure]

theorem parseFrom_options_eq_ok_iff {g : Given} {argument : String} {arguments : List String}
    {items : List Item} {r : Request} (hread : readArgument .top argument = .ok items)
    (hitems : ∀ name, items ≠ [.value name]) :
    parseFrom g (argument :: arguments) = .ok r ↔
      (addTop g items = .ok none ∧ r = .version) ∨
        ∃ g', addTop g items = .ok (some g') ∧ parseFrom g' arguments = .ok r := by
  rw [parseFrom, hread]
  split
  · next h => cases h
  · next name h => exact absurd (Except.ok.inj h) (hitems name)
  · next _ h =>
      cases h
      rcases addTop g items with e | _ | g' <;> simp [eq_comm]

namespace Given.Plainer

variable {known : Options} {g₀ g g' : Given} {expecting expecting' : Expecting}

private theorem mapped {x x₀ : Except UsageError Given}
    (h : ∀ g', x = .ok g' → ∃ g₀', x₀ = .ok g₀' ∧ g₀'.Plainer g')
    (hx : x.map (fun g => (g, Expecting.anything)) = .ok (g', expecting')) :
    ∃ g₀', x₀.map (fun g => (g, Expecting.anything)) = .ok (g₀', expecting') ∧ g₀'.Plainer g' := by
  obtain ⟨g₁, hg₁, hstate⟩ := map_eq_ok_iff.1 hx
  cases hstate
  obtain ⟨g₀', hg₀', hplainer⟩ := h _ hg₁
  exact ⟨g₀', map_eq_ok_iff.2 ⟨g₀', hg₀', rfl⟩, hplainer⟩

theorem addItem (h : g₀.Plainer g) {item : Item}
    (hitem : CommandLine.addItem (g, expecting) item = .ok (g', expecting')) :
    ∃ g₀', CommandLine.addItem (g₀, expecting) item = .ok (g₀', expecting') ∧ g₀'.Plainer g' := by
  cases expecting with
  | anything =>
      cases item with
      | switch s => exact mapped (fun _ => h.addSwitch) hitem
      | kind text => exact mapped (fun _ => h.addKind) hitem
      | value text =>
          cases hitem
          exact ⟨_, rfl, h.addValue text⟩
      | _ =>
          cases hitem
          exact ⟨g₀, rfl, h⟩
  | kind =>
      cases item with
      | value text => exact mapped (fun _ => h.addKind) hitem
      | _ => cases hitem
  | values =>
      cases item with
      | value text =>
          cases hitem
          exact ⟨_, rfl, h.addValue text⟩
      | _ => cases hitem

theorem addItems (h : g₀.Plainer g) {items : List Item}
    (hitems : items.foldlM CommandLine.addItem (g, expecting) = .ok (g', expecting')) :
    ∃ g₀', items.foldlM CommandLine.addItem (g₀, expecting) = .ok (g₀', expecting') ∧
      g₀'.Plainer g' := by
  induction items generalizing g₀ g expecting with
  | nil =>
      cases hitems
      exact ⟨g₀, rfl, h⟩
  | cons item items ih =>
      obtain ⟨⟨g₁, expecting₁⟩, hitem, hrest⟩ := foldlM_cons_eq_ok_iff.1 hitems
      obtain ⟨g₂, hitem₂, hplainer⟩ := h.addItem hitem
      obtain ⟨g₀', hrest₂, hlast⟩ := ih hplainer hrest
      exact ⟨g₀', foldlM_cons_eq_ok_iff.2 ⟨_, hitem₂, hrest₂⟩, hlast⟩

theorem addVerbosities (h : g₀.Plainer g) {switches : List Switch}
    (hswitches : ∀ s ∈ switches, s.IsVerbosity)
    (hitems : (switches.map Item.switch).foldlM CommandLine.addItem (g, expecting) =
      .ok (g', expecting')) : expecting' = expecting ∧ g₀.Plainer g' := by
  induction switches generalizing g with
  | nil =>
      cases hitems
      exact ⟨rfl, h⟩
  | cons s switches ih =>
      obtain ⟨hs, hrest⟩ := List.forall_mem_cons.1 hswitches
      obtain ⟨state, hitem, hitems⟩ := foldlM_cons_eq_ok_iff.1 hitems
      cases expecting with
      | anything =>
          obtain ⟨g₁, hg₁, rfl⟩ := map_eq_ok_iff.1 hitem
          exact ih (h.addVerbosity hs hg₁) hrest hitems
      | _ => cases hitem

theorem addArguments_of_dashes (h : g₀.Plainer g) (hexpecting : expecting ≠ .values)
    {values : List String} (hrun : ("--" :: values).foldlM (addArgument known) (g, expecting) =
      .ok (g', expecting')) :
    ∃ g₀', ("--" :: values).foldlM (addArgument known) (g₀, expecting) = .ok (g₀', expecting') ∧
      g₀'.Plainer g' := by
  obtain ⟨state, hdashes, hvalues⟩ := foldlM_cons_eq_ok_iff.1 hrun
  cases expecting with
  | anything =>
      cases hdashes
      rw [foldlM_values] at hvalues
      cases hvalues
      refine ⟨_, foldlM_cons_eq_ok_iff.2 ⟨_, rfl, foldlM_values ..⟩, ?_⟩
      exact ⟨h.json, h.direct, h.kind, congrArg (· ++ values) h.values, h.quiet⟩
  | kind => cases hdashes
  | values => exact absurd rfl hexpecting

theorem addArguments (h : g₀.Plainer g) (hknown : known.KnowVerbosity)
    (hexpecting : expecting ≠ .values) {arguments : List String}
    (hrun : arguments.foldlM (addArgument known) (g, expecting) = .ok (g', expecting')) :
    ∃ g₀', (plain arguments).foldlM (addArgument known) (g₀, expecting) = .ok (g₀', expecting') ∧
      g₀'.Plainer g' := by
  -- up to two dashes, each argument is read as options or as a value that one of them expects
  induction arguments generalizing g₀ g expecting with
  | nil =>
      cases hrun
      exact ⟨g₀, rfl, h⟩
  | cons argument arguments ih =>
      by_cases hdashes : argument = "--"
      · subst hdashes
        exact h.addArguments_of_dashes hexpecting hrun
      · obtain ⟨⟨g₁, expecting₁⟩, hargument, hrest⟩ := foldlM_cons_eq_ok_iff.1 hrun
        obtain ⟨items, hread, hitems⟩ := (addArgument_eq_ok_iff hexpecting).1 hargument
        by_cases hverbosity : setsVerbosity argument = true
        · obtain ⟨switches, hread', hswitches⟩ := readArgument_verbosity hknown hverbosity
          obtain rfl := Except.ok.inj (hread'.symm.trans hread)
          obtain ⟨rfl, hplainer⟩ := h.addVerbosities hswitches hitems
          rw [plain_of_setsVerbosity hverbosity]
          exact ih hplainer hexpecting hrest
        · obtain ⟨g₂, hitems₂, hplainer⟩ := h.addItems hitems
          have hgoes : expecting₁ ≠ .values := by
            rintro rfl
            exact hdashes (eq_of_endOfOptions_mem hread
              (endOfOptions_mem_of_addItems hexpecting hitems))
          obtain ⟨g₀', hrest₂, hlast⟩ := ih hplainer hgoes hrest
          rw [plain_cons hdashes (by simpa using hverbosity)]
          exact ⟨g₀', foldlM_cons_eq_ok_iff.2
            ⟨_, (addArgument_eq_ok_iff hexpecting).2 ⟨items, hread, hitems₂⟩, hrest₂⟩, hlast⟩

theorem gather {arguments : List String} (hknown : known.KnowVerbosity)
    (hgather : CommandLine.gather known arguments = .ok g) :
    ∃ g₀, CommandLine.gather known (plain arguments) = .ok g₀ ∧ g₀.Plainer g := by
  unfold CommandLine.gather at hgather ⊢
  split at hgather
  · cases hgather
  · cases hgather
  · next g₁ expecting hended hrun =>
      cases hgather
      obtain ⟨g₀, hrun₀, hplainer⟩ := (refl {}).addArguments hknown (by decide) hrun
      rw [hrun₀]
      cases expecting with
      | kind => exact absurd rfl hended
      | _ => exact ⟨g₀, rfl, hplainer⟩

theorem addTop (h : g₀.Plainer g) {items : List Item} {o : Option Given}
    (hitems : CommandLine.addTop g items = .ok o) :
    ∃ o₀, CommandLine.addTop g₀ items = .ok o₀ ∧ Option.Rel Plainer o₀ o := by
  induction items generalizing g₀ g with
  | nil =>
      cases hitems
      exact ⟨some g₀, rfl, .some h⟩
  | cons item items ih =>
      cases item with
      | switch s =>
          by_cases hversion : s = .version
          · subst hversion
            cases hitems
            exact ⟨none, rfl, .none⟩
          · obtain ⟨g₁, hs, hrest⟩ := (addTop_switch_eq_ok_iff hversion).1 hitems
            obtain ⟨g₂, hs₂, hplainer⟩ := h.addSwitch hs
            obtain ⟨o₀, hrest₂, hlast⟩ := ih hplainer hrest
            exact ⟨o₀, (addTop_switch_eq_ok_iff hversion).2 ⟨g₂, hs₂, hrest₂⟩, hlast⟩
      | _ => cases hitems

theorem addTop_verbosity (h : g₀.Plainer g) {switches : List Switch} {o : Option Given}
    (hswitches : ∀ s ∈ switches, s.IsVerbosity)
    (hitems : CommandLine.addTop g (switches.map .switch) = .ok o) :
    ∃ g', o = some g' ∧ g₀.Plainer g' := by
  induction switches generalizing g with
  | nil =>
      cases hitems
      exact ⟨g, rfl, h⟩
  | cons s switches ih =>
      obtain ⟨hs, hrest⟩ := List.forall_mem_cons.1 hswitches
      have hversion : s ≠ .version := by
        rcases hs with rfl | rfl <;> decide
      obtain ⟨g₁, hg₁, hitems⟩ := (addTop_switch_eq_ok_iff hversion).1 hitems
      exact ih (h.addVerbosity hs hg₁) hrest hitems

end Given.Plainer

theorem parseFrom_of_setsVerbosity {g₀ g : Given} (h : g₀.Plainer g) {argument : String}
    (hverbosity : setsVerbosity argument = true) {arguments : List String} {r : Request}
    (hparse : parseFrom g (argument :: arguments) = .ok r) :
    ∃ g', parseFrom g' arguments = .ok r ∧ g₀.Plainer g' := by
  obtain ⟨switches, hread, hswitches⟩ :=
    readArgument_verbosity Options.knowVerbosity_top hverbosity
  have hitems : ∀ name, switches.map Item.switch ≠ [.value name] := by
    intro name heq
    obtain ⟨s, -, hs⟩ := List.mem_map.1 (heq ▸ List.mem_singleton.2 rfl)
    cases hs
  rcases (parseFrom_options_eq_ok_iff hread hitems).1 hparse with ⟨htop, -⟩ | ⟨g', htop, hrest⟩
  · obtain ⟨_, hnone, -⟩ := h.addTop_verbosity hswitches htop
    cases hnone
  · obtain ⟨_, hsome, hplainer⟩ := h.addTop_verbosity hswitches htop
    cases hsome
    exact ⟨g', hrest, hplainer⟩

/-- A line that is accepted still is without its options for the verbosity, and asks for the same
command. -/
theorem parseFrom_plain {g₀ g : Given} (h : g₀.Plainer g) {arguments : List String} {r : Request}
    (hparse : parseFrom g arguments = .ok r) :
    ∃ r₀, parseFrom g₀ (plain arguments) = .ok r₀ ∧ r₀.command? = r.command? := by
  induction arguments generalizing g₀ g with
  | nil => cases hparse
  | cons argument arguments ih =>
      have hdashes : argument ≠ "--" := by
        rintro rfl
        cases hparse
      by_cases hverbosity : setsVerbosity argument = true
      · obtain ⟨g', hrest, hplainer⟩ := parseFrom_of_setsVerbosity h hverbosity hparse
        rw [plain_of_setsVerbosity hverbosity]
        exact ih hplainer hrest
      · obtain ⟨items, hread⟩ := readArgument_of_parseFrom hparse
        rw [plain_cons hdashes (by simpa using hverbosity)]
        -- what follows the name of a command is read with the options of that command
        by_cases hname : ∃ name, items = [.value name]
        · obtain ⟨name, rfl⟩ := hname
          obtain ⟨known, toCommand, after, command, hknown, hafter, hcommand, rfl⟩ :=
            (parseFrom_name_eq_ok_iff hread).1 hparse
          obtain ⟨after₀, hafter₀, hplainer⟩ :=
            Given.Plainer.gather (knowVerbosity_of_command? hknown) hafter
          have hcommand₀ := (hplainer.command_eq hknown).trans hcommand
          exact ⟨_, (parseFrom_name_eq_ok_iff hread).2
            ⟨known, toCommand, after₀, command, hknown, hafter₀, hcommand₀, rfl⟩, rfl⟩
        · have hitems : ∀ name, items ≠ [.value name] := fun name heq => hname ⟨name, heq⟩
          rcases (parseFrom_options_eq_ok_iff hread hitems).1 hparse with
            ⟨htop, rfl⟩ | ⟨g', htop, hrest⟩
          · obtain ⟨_, htop₀, hnone⟩ := h.addTop htop
            cases hnone
            exact ⟨_, (parseFrom_options_eq_ok_iff hread hitems).2 (.inl ⟨htop₀, rfl⟩), rfl⟩
          · obtain ⟨_, htop₀, hsome⟩ := h.addTop htop
            cases hsome with
            | some hplainer =>
                obtain ⟨r₀, hrest₀, hcommand⟩ := ih hplainer hrest
                exact ⟨r₀, (parseFrom_options_eq_ok_iff hread hitems).2
                  (.inr ⟨_, htop₀, hrest₀⟩), hcommand⟩

/-- Two lines that are accepted, and agree apart from their options for the verbosity, ask for the
same command. -/
theorem command?_eq_of_plain {arguments arguments' : List String} {r r' : Request}
    (hplain : plain arguments = plain arguments') (h : parse arguments = .ok r)
    (h' : parse arguments' = .ok r') : r.command? = r'.command? := by
  obtain ⟨r₀, hr₀, hcommand⟩ := parseFrom_plain (.refl {}) h
  obtain ⟨r₀', hr₀', hcommand'⟩ := parseFrom_plain (.refl {}) h'
  rw [hplain] at hr₀
  obtain rfl := Except.ok.inj (hr₀.symm.trans hr₀')
  exact hcommand.symm.trans hcommand'

example : plain ["-vv", "ce", "-q", "d.json", "--verbose", "--", "-v"] =
    ["ce", "d.json", "--", "-v"] := rfl

end DesignCoupling.CommandLine
