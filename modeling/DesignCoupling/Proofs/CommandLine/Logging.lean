import DesignCoupling.Proofs.CommandLine.Completion
import DesignCoupling.Proofs.CommandLine.Flags

/-!
# The log of a run

A run that answers a query logs what it computes, in the order in which it does: the design that is
loaded, then for each row the direct sets of the entity and of its contents, its related set and its
coupling. A threshold only selects among these events; nothing else depends on it.
-/

namespace DesignCoupling

/-- The texts that name a threshold, in small letters. -/
def Threshold.names : Threshold → List String
  | off => ["off", "0"]
  | level .error => ["", "error", "1"]
  | level .warn => ["warn", "2"]
  | level .info => ["info", "3"]
  | level .debug => ["debug", "4"]
  | level .trace => ["trace", "5"]

theorem Threshold.ofText?_eq_some_iff {text : String} {t : Threshold} :
    ofText? text = some t ↔ text.map Char.toLower ∈ t.names := by
  simp only [ofText?]
  generalize text.map Char.toLower = lower
  constructor
  · intro h
    split at h
    · next hempty =>
        cases h
        exact List.mem_cons.2 (.inl hempty)
    · have hname := List.find?_some h
      rw [Bool.or_eq_true, beq_iff_eq, beq_iff_eq] at hname
      rcases t with _ | level
      · rcases hname with rfl | rfl <;> decide
      · cases level <;> rcases hname with rfl | rfl <;> decide
  · intro h
    rcases t with _ | level
    · simp only [names, List.mem_cons, List.not_mem_nil, or_false] at h
      rcases h with rfl | rfl <;> rfl
    · cases level <;> simp only [names, List.mem_cons, List.not_mem_nil, or_false] at h
      · rcases h with rfl | rfl | rfl <;> rfl
      all_goals rcases h with rfl | rfl <;> rfl

namespace Event

/-- The line of an event: its level, what it comes from, and behind that a text. -/
def spelled : Event → String
  | skipped source target => "WARN designmetrics::design::loader: " ++
      ("Skipping usage between unknown entities from=" ++ source ++ " to=" ++ target)
  | loaded design entities usages => "INFO designmetrics::design::loader: " ++
      ("Loaded design graph design=" ++ Text.quoted (design.getD "<unnamed>") ++ " entities=" ++
        toString entities ++ " usages=" ++ toString usages)
  | direct entity count => "DEBUG designmetrics::metrics::engine: " ++
      ("Computed direct related entities entity=" ++ entity ++ " related=" ++ toString count)
  | related entity members count => "DEBUG designmetrics::metrics::engine: " ++
      ("Computed related entities entity=" ++ entity ++ " members=" ++ toString members ++
        " related=" ++ toString count)
  | efferent entity value => "DEBUG designmetrics::metrics::efferent: " ++
      ("Computed efferent coupling entity=" ++ entity ++ " ce=" ++ toString value)

theorem line_eq_spelled (e : Event) : e.line = e.spelled := by
  cases e with
  | skipped source target =>
      exact congrArg (· ++ (skipped source target).text)
        (by decide : "WARN" ++ " " ++ "designmetrics::design::loader" ++ ": " = _)
  | loaded design entities usages =>
      exact congrArg (· ++ (loaded design entities usages).text)
        (by decide : "INFO" ++ " " ++ "designmetrics::design::loader" ++ ": " = _)
  | direct entity count =>
      exact congrArg (· ++ (direct entity count).text)
        (by decide : "DEBUG" ++ " " ++ "designmetrics::metrics::engine" ++ ": " = _)
  | related entity members count =>
      exact congrArg (· ++ (related entity members count).text)
        (by decide : "DEBUG" ++ " " ++ "designmetrics::metrics::engine" ++ ": " = _)
  | efferent entity value =>
      exact congrArg (· ++ (efferent entity value).text)
        (by decide : "DEBUG" ++ " " ++ "designmetrics::metrics::efferent" ++ ": " = _)

end Event

namespace CommandLine

/-- Nothing that is understood is set for the log from outside. -/
def Setting.Unset (s : Setting) : Prop :=
  ∀ text, s.text = some text →
    (∀ t : Threshold, text.map Char.toLower ∉ t.names) ∧ s.directives text = none

/-- The threshold that a run is asked for: by its name from outside, or else by the options, of
which that for quiet comes before those for more. -/
inductive Selects (arguments : List String) (setting : Setting) : Threshold → Prop
  | named {text : String} {t : Threshold} (htext : setting.text = some text)
      (hname : text.map Char.toLower ∈ t.names) : Selects arguments setting t
  | quiet (hunset : setting.Unset) (hquiet : 0 < timesQuiet arguments) :
      Selects arguments setting (.level .error)
  | never (hunset : setting.Unset) (hloud : timesQuiet arguments = 0)
      (hverbose : timesVerbose arguments = 0) : Selects arguments setting (.level .warn)
  | once (hunset : setting.Unset) (hloud : timesQuiet arguments = 0)
      (hverbose : timesVerbose arguments = 1) : Selects arguments setting (.level .info)
  | twice (hunset : setting.Unset) (hloud : timesQuiet arguments = 0)
      (hverbose : timesVerbose arguments = 2) : Selects arguments setting (.level .debug)
  | often (hunset : setting.Unset) (hloud : timesQuiet arguments = 0)
      (hverbose : 2 < timesVerbose arguments) : Selects arguments setting (.level .trace)

/-- What is shown at a threshold of a heading, which is information, and of what is for debugging. -/
def shownAt {α : Type} (t : Threshold) (heading : α) (details : List α) : List α :=
  match t with
  | .off | .level .error | .level .warn => []
  | .level .info => [heading]
  | .level .debug | .level .trace => heading :: details

theorem Setting.filter?_of_unset {s : Setting} (h : s.Unset) : s.filter? = none := by
  unfold filter?
  cases htext : s.text with
  | none => rfl
  | some text =>
      obtain ⟨hnames, hdirectives⟩ := h text htext
      have hname : Threshold.ofText? text = none := by
        cases ht : Threshold.ofText? text with
        | none => rfl
        | some t => exact absurd (Threshold.ofText?_eq_some_iff.1 ht) (hnames t)
      simp only [Option.bind_some, hname, hdirectives]

theorem shows_of_unset {i : Invocation} {setting : Setting} (h : setting.Unset) :
    i.shows setting = fun e => i.threshold.admits e.level := by
  rw [Invocation.shows, setting.filter?_of_unset h, Option.getD_none]

theorem shows_of_selects {arguments : List String} {i : Invocation} {setting : Setting}
    {t : Threshold} (haccepted : parse arguments = .ok (.run i))
    (h : Selects arguments setting t) : i.shows setting = fun e => t.admits e.level := by
  obtain ⟨hverbosity, hquiet⟩ := verbosity_of_parse haccepted
  have hloud : timesQuiet arguments = 0 → i.quiet = false := by
    intro hnever
    rw [Bool.eq_false_iff, ne_eq, hquiet]
    omega
  cases h with
  | named htext hname =>
      rw [Invocation.shows, Setting.filter?, htext, Option.bind_some,
        Threshold.ofText?_eq_some_iff.2 hname, Option.getD_some]
  | quiet hunset hsilent =>
      rw [shows_of_unset hunset, Invocation.threshold, if_pos (hquiet.2 hsilent)]
  | never hunset hnever hverbose =>
      rw [shows_of_unset hunset, Invocation.threshold, hloud hnever, hverbosity, hverbose]
      rfl
  | once hunset hnever hverbose =>
      rw [shows_of_unset hunset, Invocation.threshold, hloud hnever, hverbosity, hverbose]
      rfl
  | twice hunset hnever hverbose =>
      rw [shows_of_unset hunset, Invocation.threshold, hloud hnever, hverbosity, hverbose]
      rfl
  | often hunset hnever hverbose =>
      have htrace : i.threshold = .level .trace := by
        rw [Invocation.threshold, hloud hnever, hverbosity]
        split
        · next hquiet => cases hquiet
        · split
          · omega
          · omega
          · omega
          · rfl
      rw [shows_of_unset hunset, htrace]

theorem map_shownAt {α β : Type} (f : α → β) (t : Threshold) (heading : α) (details : List α) :
    (shownAt t heading details).map f = shownAt t (f heading) (details.map f) := by
  rcases t with _ | level
  · rfl
  · cases level <;> rfl

theorem filter_admits {heading : Event} {details : List Event} (hheading : heading.level = .info)
    (hdetails : ∀ event ∈ details, event.level = .debug) (t : Threshold) :
    (heading :: details).filter (fun e => t.admits e.level) = shownAt t heading details := by
  have hfilter : details.filter (fun e => t.admits e.level) =
      details.filter fun _ => t.admits .debug :=
    List.filter_congr fun event hevent => by rw [hdetails event hevent]
  rw [List.filter_cons, hheading, hfilter]
  rcases t with _ | level
  · simp [Threshold.admits, Threshold.rank, Level.rank, shownAt]
  · cases level <;> simp [Threshold.admits, Threshold.rank, Level.rank, shownAt]

theorem level_of_mem_relatedEvents {P : Provider} {e : Entity} {event : Event}
    (h : event ∈ P.relatedEvents e) : event.level = .debug := by
  simp only [Provider.relatedEvents, Provider.directEvent, List.mem_append, List.mem_cons,
    List.mem_map, List.not_mem_nil, or_false] at h
  rcases h with (rfl | ⟨m, -, rfl⟩) | rfl <;> rfl

theorem level_of_mem_eventsAbout {P : Provider} {query : Query} {e : Entity} {event : Event}
    (h : event ∈ eventsAbout P query e) : event.level = .debug := by
  cases query with
  | efferent names kind =>
      rcases List.mem_append.1 h with hrelated | hefferent
      · exact level_of_mem_relatedEvents hrelated
      · rw [List.mem_singleton.1 hefferent]
        rfl
  | related name direct =>
      cases direct with
      | true =>
          rw [List.mem_singleton.1 h]
          rfl
      | false => exact level_of_mem_relatedEvents h

/-- What a run prints, and how it ends, depends on the command alone. -/
theorem program_eq_of_command? {arguments arguments' : List String} {r r' : Request}
    (h : parse arguments = .ok r) (h' : parse arguments' = .ok r')
    (hsame : r.command? = r'.command?) (setting setting' : Setting) (read : FileReader) :
    let o := program arguments setting read
    let o' := program arguments' setting' read
    o'.output = o.output ∧ o'.exitCode = o.exitCode ∧ o'.error = o.error := by
  intro o o'
  cases r with
  | version =>
      cases r' with
      | version => simp only [o, o', program, h, h', and_self]
      | run i' => cases hsame
  | run i =>
      cases r' with
      | version => cases hsame
      | run i' =>
          have hcommand : i'.command = i.command := (Option.some.inj hsame).symm
          simp only [o, o', program, h, h', Invocation.run, hcommand]
          cases (i.command.run read).value <;> simp

/-- The log tells exactly what is computed, and has no part in it. Command lines that agree apart
from their options for the verbosity ask for the same command, and those that do print the same and
end in the same way, whatever is set from outside. A run on a valid document that declares all names
asked for can only log that the design is loaded, and then, for each entity of the report in the
order of the rows, what is computed for it. At the threshold that is asked for, by a name from
outside or by the options, it logs the part that this shows, as lines. -/
theorem log_tells_computation (read : FileReader) :
    (∀ arguments arguments' setting setting' r r', parse arguments = .ok r →
      parse arguments' = .ok r' →
      let o := program arguments setting read
      let o' := program arguments' setting' read
      (plain arguments = plain arguments' → r.command? = r'.command?) ∧
        (r.command? = r'.command? →
          o'.output = o.output ∧ o'.exitCode = o.exitCode ∧ o'.error = o.error)) ∧
    ∀ arguments i setting doc, parse arguments = .ok (.run i) →
      Holds read i.command.design doc → (∀ name ∈ i.command.query.names, name ∈ doc.names) →
      ∃ d es, doc.toDesign = .ok d ∧ Subjects doc i.command.query es ∧
        let o := program arguments setting read
        let loaded := Event.loaded doc.name doc.entities.length doc.usages.length
        let computed := es.flatMap (eventsAbout d.provider i.command.query)
        Prints i.command.json (rowsAbout d.provider i.command.query es) o.output ∧
        o.log.Sublist (loaded :: computed) ∧
        ∀ t, Selects arguments setting t → o.log = shownAt t loaded computed ∧
          o.log.map Event.line =
            shownAt t loaded.spelled (computed.map Event.spelled) := by
  constructor
  · intro arguments arguments' setting setting' r r' h h'
    exact ⟨fun hplain => command?_eq_of_plain hplain h h',
      fun hsame => program_eq_of_command? h h' hsame setting setting' read⟩
  · intro arguments i setting doc haccepted hholds hdeclared
    obtain ⟨hload, hvalid⟩ := holds_iff.1 hholds
    have hwell := Document.WellFormed.of_validate hvalid
    obtain ⟨d, hd, hshows⟩ := hwell.shows_toDesign
    obtain ⟨es, hes, hrows⟩ := rows_of_declared hshows hwell.distinct hdeclared
    have hrun : i.command.run read =
        ⟨.ok (render i.command.json (rowsAbout d.provider i.command.query es)),
          .loaded doc.name doc.entities.length doc.usages.length ::
            es.flatMap (eventsAbout d.provider i.command.query)⟩ := by
      rw [run_of_rows hload hd, hrows, (hshows.represents hwell).entityCount, hshows.count]
      rfl
    have ho : program arguments setting read = i.run setting read := by
      simp only [program, haccepted]
    refine ⟨d, es, hd, hes, ?_⟩
    rw [ho, run_of_ok hrun]
    refine ⟨prints_render .., List.filter_sublist, fun t ht => ?_⟩
    have hdebug : ∀ event ∈ es.flatMap (eventsAbout d.provider i.command.query),
        event.level = .debug := by
      intro event hevent
      obtain ⟨e, -, habout⟩ := List.mem_flatMap.1 hevent
      exact level_of_mem_eventsAbout habout
    rw [shows_of_selects haccepted ht, filter_admits rfl hdebug]
    refine ⟨rfl, ?_⟩
    rw [map_shownAt, funext Event.line_eq_spelled]

theorem Subjects.eq_calledClass {es : List Entity} {kind : EntityKind}
    (h : Subjects calledClass (.efferent ["c"] kind) es) : es = [⟨"c", .classDecl, none⟩] := by
  cases h with
  | named _ hlisted hdeclared =>
      obtain ⟨e, rfl, hname⟩ := List.map_eq_singleton_iff.1 hlisted
      rw [eq_of_mem_calledClass (hdeclared e List.mem_cons_self) hname]

theorem efferentEvents_calledClass {d : Design} (hd : calledClass.toDesign = .ok d) :
    d.provider.efferentEvents ⟨"c", .classDecl, none⟩ =
      [.direct "c" 1, .direct "m" 1, .related "c" 1 1, .efferent "c" 1] := by
  have hevents : (calledClass.toDesign.toOption.map fun d =>
      d.provider.efferentEvents ⟨"c", .classDecl, none⟩) =
      some [.direct "c" 1, .direct "m" 1, .related "c" 1 1, .efferent "c" 1] := by cbv
  rw [hd] at hevents
  exact Option.some.inj hevents

/-- The class, the method in it and then what both are coupled to, at the level for debugging; only
the design where information is asked for from outside, and nothing when quiet. -/
theorem log_calledClass :
    let read : FileReader := fun _ => .ok calledClassFile.toUTF8
    let o := program ["-vv", "ce", "d.json", "c"] {} read
    let o' := program ["ce", "-q", "d.json", "c"] {} read
    Holds read "d.json" calledClass ∧
    o.log.map Event.line =
      ["INFO designmetrics::design::loader: Loaded design graph design=\"<unnamed>\" entities=3 usages=1",
        "DEBUG designmetrics::metrics::engine: Computed direct related entities entity=c related=1",
        "DEBUG designmetrics::metrics::engine: Computed direct related entities entity=m related=1",
        "DEBUG designmetrics::metrics::engine: Computed related entities entity=c members=1 related=1",
        "DEBUG designmetrics::metrics::efferent: Computed efferent coupling entity=c ce=1"] ∧
    (program ["ce", "-q", "d.json", "c"] { text := some "4" } read).log = o.log ∧
    (program ["-vv", "ce", "d.json", "c"] { text := some "Info" } read).log = [.loaded none 3 1] ∧
    o.output = "c\t1\n" ∧ o'.log = [] ∧ o'.output = o.output ∧ o'.exitCode = o.exitCode ∧
    o'.error = o.error := by
  intro read o o'
  have haccepted : parse ["-vv", "ce", "d.json", "c"] =
      .ok (.run ⟨⟨"d.json", .efferent ["c"] .classDecl, false⟩, 2, false⟩) := by cbv
  have haccepted' : parse ["ce", "-q", "d.json", "c"] =
      .ok (.run ⟨⟨"d.json", .efferent ["c"] .classDecl, false⟩, 0, true⟩) := by cbv
  obtain ⟨hsame, hlogs⟩ := log_tells_computation read
  obtain ⟨hcommand, hagree⟩ := hsame _ _ {} {} _ _ haccepted haccepted'
  have hunset : Setting.Unset {} := by
    intro text htext
    cases htext
  have hdeclared : ∀ name ∈ ["c"], name ∈ calledClass.names := by decide
  have hlog : ∀ {arguments : List String} {v : Nat} {q : Bool} {setting : Setting} {t : Threshold},
      parse arguments = .ok (.run ⟨⟨"d.json", .efferent ["c"] .classDecl, false⟩, v, q⟩) →
      Selects arguments setting t →
      (program arguments setting read).log = shownAt t (.loaded none 3 1)
        [.direct "c" 1, .direct "m" 1, .related "c" 1 1, .efferent "c" 1] := by
    intro arguments v q setting t hparsed ht
    obtain ⟨d, es, hd, hes, -, -, hshown⟩ :=
      hlogs _ _ setting _ hparsed holds_calledClassFile hdeclared
    obtain rfl := hes.eq_calledClass
    rw [(hshown t ht).1, List.flatMap_singleton, eventsAbout, efferentEvents_calledClass hd]
    rfl
  have hfour : "4".map Char.toLower ∈ Threshold.names (.level .debug) := by decide +kernel
  have hinfo : "Info".map Char.toLower ∈ Threshold.names (.level .info) := by decide +kernel
  have htwice : Selects ["-vv", "ce", "d.json", "c"] {} (.level .debug) :=
    .twice hunset (by decide) (by decide)
  obtain ⟨d, es, hd, hes, hprinted, -, hshown⟩ :=
    hlogs _ _ {} _ haccepted holds_calledClassFile hdeclared
  obtain rfl := hes.eq_calledClass
  have hlines := (hshown _ htwice).2
  rw [List.flatMap_singleton, eventsAbout, efferentEvents_calledClass hd] at hlines
  have hrow : rowsAbout d.provider (.efferent ["c"] .classDecl) [⟨"c", .classDecl, none⟩] =
      [⟨"c", .classDecl, some 1⟩] := congrArg (· :: List.nil) (measured_calledClass hd)
  rw [hrow] at hprinted
  refine ⟨holds_calledClassFile, ?_, ?_, ?_, hprinted.text rfl, ?_, hagree (hcommand rfl)⟩
  · rw [hlines]
    decide
  · rw [hlog haccepted htwice]
    exact hlog haccepted' (.named rfl hfour)
  · exact hlog haccepted (.named rfl hinfo)
  · exact hlog haccepted' (.quiet hunset (by decide))

end CommandLine

end DesignCoupling
