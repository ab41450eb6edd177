import DesignCoupling.Proofs.CommandLine.Verbosity

/-!
# How much a command line asks for

How often a line asks for more, and whether it asks for quiet, is counted in its arguments: in those
before the command, which all are options, and in those from the command on up to two dashes.
-/

namespace DesignCoupling.CommandLine

/-- How often an argument gives the option with this letter and this word. Among letters behind a
dash, that of the kind takes the rest for its value. -/
def timesIn (letter : Char) (word : String) (argument : String) : Nat :=
  match argument.toList with
  | '-' :: '-' :: s => if s = word.toList then 1 else 0
  | '-' :: s => (s.takeWhile (· ≠ 'k')).count letter
  | _ => 0

def times (letter : Char) (word : String) : List String → Nat
  | [] => 0
  | argument :: arguments => timesIn letter word argument + times letter word arguments

def isOption (argument : String) : Bool :=
  match argument.toList with
  | '-' :: _ :: _ => true
  | _ => false

def beforeCommand (arguments : List String) : List String := arguments.takeWhile isOption

def fromCommand (arguments : List String) : List String :=
  (arguments.dropWhile isOption).takeWhile (· ≠ "--")

/-- How often a line asks for more. Where it does after the command, this alone counts. -/
def timesVerbose (arguments : List String) : Nat :=
  if times 'v' "verbose" (fromCommand arguments) = 0 then
    times 'v' "verbose" (beforeCommand arguments)
  else times 'v' "verbose" (fromCommand arguments)

def timesQuiet (arguments : List String) : Nat :=
  times 'q' "quiet" (beforeCommand arguments) + times 'q' "quiet" (fromCommand arguments)

section Reading

variable {known : Options} {s : Switch} {letter : Char}

theorem short?_eq_some {c : Char} (h : known.short? c = some s) : s.short? = some c := by
  simpa using List.find?_some h

theorem toList_long_of_long? {name : List Char} (h : known.long? name = some s) :
    s.long.toList = name := by
  simpa using List.find?_some h

theorem short?_ne_k (s : Switch) : s.short? ≠ some 'k' := by
  cases s <;> decide

theorem toList_long_ne_nil (s : Switch) : s.long.toList ≠ [] := by
  cases s <;> decide

theorem count_readLetters (hletter : known.short? letter = some s) {cs : List Char}
    {items : List Item} (hread : readLetters known cs = .ok items)
    (hversion : .switch .version ∉ items) :
    items.count (.switch s) = (cs.takeWhile (· ≠ 'k')).count letter := by
  induction cs generalizing items with
  | nil =>
      cases hread
      rfl
  | cons c cs ih =>
      unfold readLetters at hread
      split at hread
      · cases hread
        exact absurd List.mem_cons_self hversion
      · next s' _ hc =>
          split at hread
          · next rest hrest =>
              cases hread
              have hk : c ≠ 'k' := by
                rintro rfl
                exact short?_ne_k s' (short?_eq_some hc)
              -- a letter is known as one switch, and a switch has one letter
              have hsame : s' = s ↔ c = letter := by
                constructor
                · rintro rfl
                  exact Option.some.inj ((short?_eq_some hc).symm.trans (short?_eq_some hletter))
                · rintro rfl
                  exact Option.some.inj (hc.symm.trans hletter)
              rw [List.takeWhile_cons_of_pos (by simpa using hk), List.count_cons, List.count_cons,
                ih hrest fun hmem => hversion (List.mem_cons_of_mem _ hmem)]
              simp [hsame]
          · cases hread
      · split at hread
        · next hkind =>
            rw [List.takeWhile_cons_of_neg (by simp [hkind.2])]
            split at hread <;> cases hread <;> rfl
        · cases hread

theorem eq_of_readLong {cs : List Char} (h : readLong known cs = .ok (.switch s)) :
    cs = s.long.toList := by
  unfold readLong at h
  dsimp only at h
  split at h
  · split at h <;> cases h
  · split at h
    · next s' hname =>
        split at h
        · next hvalue =>
            cases h
            have hword := List.takeWhile_append_dropWhile (p := (· ≠ '=')) (l := cs)
            rw [hvalue, List.append_nil] at hword
            rw [toList_long_of_long? hname, hword]
        · cases h
    · cases h

theorem count_readLong (hword : readLong known s.long.toList = .ok (.switch s)) {cs : List Char}
    {item : Item} (hread : readLong known cs = .ok item) :
    [item].count (.switch s) = if cs = s.long.toList then 1 else 0 := by
  by_cases hcs : cs = s.long.toList
  · subst hcs
    obtain rfl := Except.ok.inj (hread.symm.trans hword)
    rw [if_pos rfl, List.count_singleton_self]
  · have hne : item ≠ .switch s := by
      rintro rfl
      exact hcs (eq_of_readLong hread)
    rw [if_neg hcs, List.count_singleton, if_neg (by simpa using hne)]

theorem ne_cons_of_isOption {argument : String} (h : isOption argument = false) (c : Char)
    (cs : List Char) : argument.toList ≠ '-' :: c :: cs := by
  intro hcs
  simp [isOption, hcs] at h

theorem timesIn_of_isOption {argument : String} (h : isOption argument = false) (letter : Char)
    (word : String) : timesIn letter word argument = 0 := by
  unfold timesIn
  split
  · next cs hcs => exact absurd hcs (ne_cons_of_isOption h _ cs)
  · next cs _ hcs =>
      cases cs with
      | nil => rfl
      | cons c cs => exact absurd hcs (ne_cons_of_isOption h c cs)
  · rfl

theorem isOption_eq_false {argument : String} (h : ∀ c cs, argument.toList = '-' :: c :: cs → False) :
    isOption argument = false := by
  unfold isOption
  split
  · next hcs => exact (h _ _ hcs).elim
  · rfl

/-- An argument gives an option as often as is counted in it. -/
theorem count_readArgument (hletter : known.short? letter = some s)
    (hword : readLong known s.long.toList = .ok (.switch s)) {argument : String}
    {items : List Item} (hread : readArgument known argument = .ok items)
    (hversion : .switch .version ∉ items) :
    items.count (.switch s) = timesIn letter s.long argument := by
  unfold readArgument at hread
  split at hread
  · next hdashes =>
      cases hread
      simp [timesIn, hdashes, (toList_long_ne_nil s).symm]
  · next cs _ hcs =>
      cases hlong : readLong known cs with
      | error e => simp [hlong] at hread
      | ok item =>
          simp only [hlong, Except.ok.injEq] at hread
          subst hread
          simp only [count_readLong hword hlong, timesIn, hcs]
  · next c cs _ hdash hcs =>
      rw [count_readLetters hletter hread hversion]
      simp only [timesIn, hcs]
      split
      · next heq => exact absurd (List.cons.inj (List.cons.inj heq).2).1 hdash
      · next heq => rw [(List.cons.inj heq).2]
      · next hnone => exact absurd rfl (hnone (c :: cs))
  · next hvalue =>
      cases hread
      rw [timesIn_of_isOption (isOption_eq_false hvalue), List.count_singleton, if_neg (by simp)]

theorem count_eq_timesIn (hknown : known.KnowVerbosity) {argument : String} {items : List Item}
    (hread : readArgument known argument = .ok items) (hversion : .switch .version ∉ items) :
    items.count (.switch .verbose) = timesIn 'v' "verbose" argument ∧
      items.count (.switch .quiet) = timesIn 'q' "quiet" argument :=
  ⟨count_readArgument hknown.v hknown.verbose hread hversion,
    count_readArgument hknown.q hknown.quiet hread hversion⟩

theorem readArgument_of_isOption {argument : String} (h : isOption argument = false) :
    readArgument known argument = .ok [.value argument] := by
  unfold readArgument
  split
  · next hcs => exact absurd hcs (ne_cons_of_isOption h _ _)
  · next hcs => exact absurd hcs (ne_cons_of_isOption h _ _)
  · next hcs => exact absurd hcs (ne_cons_of_isOption h _ _)
  · rfl

theorem ne_value_of_isOption {argument : String} {items : List Item} (h : isOption argument = true)
    (hread : readArgument known argument = .ok items) (name : String) : items ≠ [.value name] := by
  rintro rfl
  unfold readArgument at hread
  split at hread
  · cases hread
  · next cs _ _ =>
      cases hlong : readLong known cs with
      | error e => simp [hlong] at hread
      | ok item =>
          simp only [hlong, Except.ok.injEq, List.cons.injEq, and_true] at hread
          subst hread
          cases isOption_of_readLong hlong
  · cases isOption_of_readLetters hread _ List.mem_cons_self
  · next hvalue => exact absurd h (by simp [isOption_eq_false hvalue])

end Reading

theorem count_switch (s s' : Switch) : [Item.switch s].count (.switch s') = [s].count s' := by
  simp [List.count_singleton]

/-- So much more is asked for on the right, and quiet so many times. -/
structure Given.Adds (g g' : Given) (more quiet : Nat) : Prop where
  verbosity : g'.verbosity = g.verbosity + more
  quiet : g'.quiet = true ↔ g.quiet = true ∨ 0 < quiet

namespace Given.Adds

variable {known : Options} {g g' g'' : Given} {m n m' n' : Nat} {expecting expecting' : Expecting}

theorem refl (g : Given) : g.Adds g 0 0 := ⟨rfl, by simp⟩

theorem trans (h : g.Adds g' m n) (h' : g'.Adds g'' m' n') : g.Adds g'' (m + m') (n + n') where
  verbosity := by rw [h'.verbosity, h.verbosity, Nat.add_assoc]
  quiet := by
    rw [h'.quiet, h.quiet, or_assoc]
    refine or_congr_right ?_
    omega

theorem of_addSwitch {s : Switch} (h : g.addSwitch s = .ok g') :
    g.Adds g' ([s].count .verbose) ([s].count .quiet) := by
  cases s with
  | verbose =>
      cases h
      exact ⟨rfl, by simp⟩
  | version => cases h
  | _ =>
      simp only [Given.addSwitch] at h
      split at h
      · cases h
      · cases h
        exact ⟨rfl, by simp⟩

theorem of_addKind {text : String} (h : g.addKind text = .ok g') : g.Adds g' 0 0 := by
  unfold Given.addKind at h
  split at h
  · cases h
  · cases h
  · cases h
    exact ⟨rfl, by simp⟩

theorem cons {item : Item} {items : List Item}
    (h : g.Adds g' ([item].count (.switch .verbose)) ([item].count (.switch .quiet)))
    (h' : g'.Adds g'' (items.count (.switch .verbose)) (items.count (.switch .quiet))) :
    g.Adds g'' ((item :: items).count (.switch .verbose)) ((item :: items).count (.switch .quiet)) := by
  have hcount : ∀ s, ([item] ++ items).count (.switch s) =
      [item].count (.switch s) + items.count (.switch s) := fun _ => List.count_append
  rw [← List.singleton_append, hcount, hcount]
  exact h.trans h'

theorem of_addItem {item : Item} (h : addItem (g, expecting) item = .ok (g', expecting')) :
    g.Adds g' ([item].count (.switch .verbose)) ([item].count (.switch .quiet)) := by
  have hkind : ∀ {text : String}, (g.addKind text).map (fun g => (g, Expecting.anything)) =
      .ok (g', expecting') → g.Adds g' 0 0 := by
    intro text hmap
    obtain ⟨g₁, hg₁, hstate⟩ := map_eq_ok_iff.1 hmap
    cases hstate
    exact of_addKind hg₁
  cases expecting with
  | anything =>
      cases item with
      | switch s =>
          obtain ⟨g₁, hg₁, hstate⟩ := map_eq_ok_iff.1 h
          cases hstate
          rw [count_switch, count_switch]
          exact of_addSwitch hg₁
      | kind text => exact hkind h
      | value text =>
          cases h
          exact ⟨rfl, by simp [Given.addValue]⟩
      | _ =>
          cases h
          exact refl g
  | kind =>
      cases item with
      | value text => exact hkind h
      | _ => cases h
  | values =>
      cases item with
      | value text =>
          cases h
          exact ⟨rfl, by simp [Given.addValue]⟩
      | _ => cases h

theorem of_addItems {items : List Item}
    (h : items.foldlM addItem (g, expecting) = .ok (g', expecting')) :
    .switch .version ∉ items ∧
      g.Adds g' (items.count (.switch .verbose)) (items.count (.switch .quiet)) := by
  induction items generalizing g expecting with
  | nil =>
      cases h
      exact ⟨List.not_mem_nil, refl _⟩
  | cons item items ih =>
      obtain ⟨⟨g₁, expecting₁⟩, hitem, hrest⟩ := foldlM_cons_eq_ok_iff.1 h
      obtain ⟨hversions, hadds⟩ := ih hrest
      have hversion : .switch .version ≠ item := by
        rintro rfl
        cases expecting <;> cases hitem
      exact ⟨List.not_mem_cons_of_ne_of_not_mem hversion hversions, (of_addItem hitem).cons hadds⟩

theorem of_addTop {items : List Item} (h : addTop g items = .ok (some g')) :
    .switch .version ∉ items ∧
      g.Adds g' (items.count (.switch .verbose)) (items.count (.switch .quiet)) := by
  induction items generalizing g with
  | nil =>
      cases h
      exact ⟨List.not_mem_nil, refl _⟩
  | cons item items ih =>
      cases item with
      | switch s =>
          by_cases hversion : s = .version
          · subst hversion
            cases h
          · obtain ⟨g₁, hs, hrest⟩ := (addTop_switch_eq_ok_iff hversion).1 h
            obtain ⟨hversions, hadds⟩ := ih hrest
            refine ⟨List.not_mem_cons_of_ne_of_not_mem (by simpa using Ne.symm hversion) hversions, ?_⟩
            have hswitch := of_addSwitch hs
            rw [← count_switch, ← count_switch] at hswitch
            exact hswitch.cons hadds
      | _ => cases h

theorem of_addArguments (hknown : known.KnowVerbosity) (hexpecting : expecting ≠ .values)
    {arguments : List String}
    (hrun : arguments.foldlM (addArgument known) (g, expecting) = .ok (g', expecting')) :
    g.Adds g' (times 'v' "verbose" (arguments.takeWhile (· ≠ "--")))
      (times 'q' "quiet" (arguments.takeWhile (· ≠ "--"))) := by
  induction arguments generalizing g expecting with
  | nil =>
      cases hrun
      exact refl _
  | cons argument arguments ih =>
      obtain ⟨⟨g₁, expecting₁⟩, hargument, hrest⟩ := foldlM_cons_eq_ok_iff.1 hrun
      obtain ⟨items, hread, hitems⟩ := (addArgument_eq_ok_iff hexpecting).1 hargument
      by_cases hdashes : argument = "--"
      · -- all that follows are values, whatever they begin with
        subst hdashes
        rw [List.takeWhile_cons_of_neg (by simp)]
        cases expecting with
        | anything =>
            cases hargument
            rw [foldlM_values] at hrest
            cases hrest
            exact ⟨rfl, by simp [times]⟩
        | kind => cases hargument
        | values => exact absurd rfl hexpecting
      · have hgoes : expecting₁ ≠ .values := by
          rintro rfl
          exact hdashes (eq_of_endOfOptions_mem hread
            (endOfOptions_mem_of_addItems hexpecting hitems))
        obtain ⟨hversion, hadds⟩ := of_addItems hitems
        obtain ⟨hverbose, hquiet⟩ := count_eq_timesIn hknown hread hversion
        rw [List.takeWhile_cons_of_pos (by simpa using hdashes), times, times, ← hverbose,
          ← hquiet]
        exact hadds.trans (ih hgoes hrest)

theorem of_gather (hknown : known.KnowVerbosity) {arguments : List String}
    (h : gather known arguments = .ok g) :
    Adds {} g (times 'v' "verbose" (arguments.takeWhile (· ≠ "--")))
      (times 'q' "quiet" (arguments.takeWhile (· ≠ "--"))) := by
  unfold gather at h
  split at h
  · cases h
  · cases h
  · next hrun =>
      cases h
      exact of_addArguments hknown (by decide) hrun

end Given.Adds

theorem exists_adds_of_parseFrom {g : Given} {arguments : List String} {i : Invocation}
    (h : parseFrom g arguments = .ok (.run i)) : ∃ before after command,
      i = invocation before after command ∧
      g.Adds before (times 'v' "verbose" (beforeCommand arguments))
        (times 'q' "quiet" (beforeCommand arguments)) ∧
      Given.Adds {} after (times 'v' "verbose" (fromCommand arguments))
        (times 'q' "quiet" (fromCommand arguments)) := by
  induction arguments generalizing g with
  | nil => cases h
  | cons argument arguments ih =>
      by_cases hoption : isOption argument = true
      · obtain ⟨items, hread⟩ := readArgument_of_parseFrom h
        rcases (parseFrom_options_eq_ok_iff hread (ne_value_of_isOption hoption hread)).1 h with
          ⟨-, hversion⟩ | ⟨g₁, htop, hrest⟩
        · cases hversion
        · obtain ⟨before, after, command, hi, hbefore, hafter⟩ := ih hrest
          obtain ⟨hversion, hadds⟩ := Given.Adds.of_addTop htop
          obtain ⟨hverbose, hquiet⟩ :=
            count_eq_timesIn Options.knowVerbosity_top hread hversion
          refine ⟨before, after, command, hi, ?_, ?_⟩
          · rw [beforeCommand, List.takeWhile_cons_of_pos hoption, times, times, ← hverbose,
              ← hquiet]
            exact hadds.trans hbefore
          · rwa [fromCommand, List.dropWhile_cons_of_pos hoption]
      · -- the first argument that is no option is the name of the command
        have hname : isOption argument = false := by simpa using hoption
        obtain ⟨known, toCommand, after, command, hknown, hafter, -, hi⟩ :=
          (parseFrom_name_eq_ok_iff (readArgument_of_isOption hname)).1 h
        have hdashes : argument ≠ "--" := by
          rintro rfl
          cases hname
        cases hi
        refine ⟨g, after, command, rfl, ?_, ?_⟩
        · rw [beforeCommand, List.takeWhile_cons_of_neg hoption]
          exact .refl g
        · rw [fromCommand, List.dropWhile_cons_of_neg hoption,
            List.takeWhile_cons_of_pos (by simpa using hdashes), times, times,
            timesIn_of_isOption hname, timesIn_of_isOption hname, Nat.zero_add, Nat.zero_add]
          exact .of_gather (knowVerbosity_of_command? hknown) hafter

/-- The verbosity of a line that is accepted is what its arguments ask for. -/
theorem verbosity_of_parse {arguments : List String} {i : Invocation}
    (h : parse arguments = .ok (.run i)) :
    i.verbosity = timesVerbose arguments ∧ (i.quiet = true ↔ 0 < timesQuiet arguments) := by
  obtain ⟨before, after, command, rfl, hbefore, hafter⟩ := exists_adds_of_parseFrom h
  have hmore : after.verbosity = times 'v' "verbose" (fromCommand arguments) := by
    rw [hafter.verbosity, Nat.zero_add]
  have hless : before.verbosity = times 'v' "verbose" (beforeCommand arguments) := by
    rw [hbefore.verbosity, Nat.zero_add]
  constructor
  · simp only [invocation, timesVerbose, hmore, hless]
  · simp only [invocation, Bool.or_eq_true, hbefore.quiet, hafter.quiet, timesQuiet,
      Bool.false_eq_true, false_or]
    omega

example : timesVerbose ["-vv", "ce", "-qvd", "d.json", "--verbose", "--", "-v"] = 2 := by cbv

end DesignCoupling.CommandLine
