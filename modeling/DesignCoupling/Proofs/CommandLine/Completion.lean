import DesignCoupling.Proofs.CommandLine.Answering
import DesignCoupling.Proofs.CommandLine.Printing

/-!
# All or nothing

A run writes everything that was asked for, or nothing but one error. It succeeds exactly if the file
holds a valid document that declares every name asked for; nothing is computed before that is known.
-/

namespace DesignCoupling

namespace CommandLine

/-- The file holds a valid document: its bytes are a text, the text is a document, this is valid. -/
def Holds (read : FileReader) (path : String) (doc : Document) : Prop :=
  ∃ bytes text, read path = .ok bytes ∧ String.fromUTF8? bytes = some text ∧
    Document.parse text = .ok doc ∧ doc.validate = .ok ()

section Runs

variable {doc : Document} {d : Design}

/-- How a command ends: with the file not holding a valid document, with a name that this does not
declare, or complete. -/
inductive Ending (read : FileReader) (c : Command) : Logged (Except Failure String) → Prop
  | unloaded {error : LoadError} (hholds : ∀ doc, ¬ Holds read c.design doc) :
      Ending read c ⟨.error (.load c.design error), []⟩
  | undeclared {doc : Document} {name : String} {design : Option String} {entities usages : Nat}
      (hholds : Holds read c.design doc) (hmissing : firstUndeclared? doc c.query.names = some name) :
      Ending read c ⟨.error (.refused (.notFound name)), [.loaded design entities usages]⟩
  | complete {doc : Document} {d : Design} {answer : List Row} {events : List Event}
      (hholds : Holds read c.design doc) (hd : doc.toDesign = .ok d)
      (hdeclared : ∀ name ∈ c.query.names, name ∈ doc.names)
      (hanswer : Answers doc d.provider c.query answer) :
      Ending read c ⟨.ok (render c.json answer), events⟩

theorem load_eq_ok_iff {read : FileReader} {path : String} :
    Document.load read path = .ok doc ↔
      ∃ bytes text, read path = .ok bytes ∧ String.fromUTF8? bytes = some text ∧
        Document.parse text = .ok doc := by
  constructor
  · intro h
    unfold Document.load at h
    split at h
    · cases h
    · next bytes hbytes =>
        unfold Document.ofBytes at h
        split at h
        · cases h
        · next text htext =>
            refine ⟨bytes, text, hbytes, htext, ?_⟩
            unfold Document.ofText at h
            cases hparse : Document.parse text with
            | error fault => rw [hparse] at h; cases h
            | ok found => rw [hparse] at h; cases h; rfl
  · rintro ⟨bytes, text, hbytes, htext, hparse⟩
    simp only [Document.load, hbytes, Document.ofBytes, htext, Document.ofText, hparse,
      Except.mapError]

theorem holds_iff {read : FileReader} {path : String} :
    Holds read path doc ↔ Document.load read path = .ok doc ∧ doc.validate = .ok () := by
  rw [load_eq_ok_iff]
  constructor
  · rintro ⟨bytes, text, hbytes, htext, hparse, hvalid⟩
    exact ⟨⟨bytes, text, hbytes, htext, hparse⟩, hvalid⟩
  · rintro ⟨⟨bytes, text, hbytes, htext, hparse⟩, hvalid⟩
    exact ⟨bytes, text, hbytes, htext, hparse, hvalid⟩

theorem Holds.unique {read : FileReader} {path : String} {doc' : Document}
    (h : Holds read path doc) (h' : Holds read path doc') : doc = doc' :=
  Except.ok.inj ((holds_iff.1 h).1.symm.trans (holds_iff.1 h').1)

theorem Ending.of_unloaded {read : FileReader} {c : Command} {error : LoadError}
    (hload : loadDesign read c.design = ⟨.error (.load c.design error), []⟩)
    (hholds : ∀ doc, ¬ Holds read c.design doc) : Ending read c (c.run read) := by
  have hrun : c.run read = ⟨.error (.load c.design error), []⟩ := by
    rw [Command.run, hload]
    rfl
  exact hrun ▸ .unloaded hholds

/-- A design that is loaded leaves no warning behind. -/
theorem loadDesign_eq {read : FileReader} {path : String}
    (hload : Document.load read path = .ok doc) (hd : doc.toDesign = .ok d) :
    loadDesign read path = ⟨.ok d, [.loaded doc.name d.entityCount d.usageCount]⟩ := by
  have hwell := Document.WellFormed.of_validate (Document.validate_of_toDesign hd)
  rw [loadDesign, hload]
  simp only [hwell.unrefused.toDesignLogged_eq hd]
  rfl

theorem run_of_rows {read : FileReader} {c : Command}
    (hload : Document.load read c.design = .ok doc) (hd : doc.toDesign = .ok d) :
    c.run read = ⟨(rows d c.query).value.map (render c.json),
      .loaded doc.name d.entityCount d.usageCount :: (rows d c.query).events⟩ := by
  rw [Command.run, loadDesign_eq hload hd]
  simp only [bind]
  cases (rows d c.query).value with
  | error failure => simp [pure, Except.map]
  | ok answer => simp [pure, Except.map]

theorem Ending.of_holds {read : FileReader} {c : Command} (hholds : Holds read c.design doc) :
    Ending read c (c.run read) := by
  obtain ⟨hload, hvalid⟩ := holds_iff.1 hholds
  have hwell := Document.WellFormed.of_validate hvalid
  obtain ⟨d, hd, hshows⟩ := hwell.shows_toDesign
  rw [run_of_rows hload hd]
  rcases rows_cases hshows hwell.distinct c.query with ⟨es, hes, hrows⟩ | ⟨name, hmissing, hrows⟩
  · rw [hrows]
    exact .complete hholds hd hes.declared (hes.answers d.provider)
  · rw [hrows]
    exact .undeclared hholds hmissing

theorem run_ends (read : FileReader) (c : Command) : Ending read c (c.run read) := by
  cases hload : Document.load read c.design with
  | error error =>
      refine .of_unloaded (by rw [loadDesign, hload]; rfl) ?_
      intro doc hdoc
      cases hload.symm.trans (holds_iff.1 hdoc).1
  | ok doc =>
      cases hvalid : doc.validate with
      | error defect =>
          refine .of_unloaded
            (by simp only [loadDesign, hload,
                  Document.toDesignLogged_eq_error (Document.toDesign_eq_error hvalid)]; rfl) ?_
          intro doc' hdoc'
          obtain rfl := Except.ok.inj (hload.symm.trans (holds_iff.1 hdoc').1)
          cases hvalid.symm.trans (holds_iff.1 hdoc').2
      | ok => exact .of_holds (holds_iff.2 ⟨hload, hvalid⟩)

end Runs

section Outcomes

variable {i : Invocation} {read : FileReader} {events : List Event}

theorem run_of_ok {output : String} (h : i.command.run read = ⟨.ok output, events⟩)
    (setting : Setting) : i.run setting read =
      ⟨0, output, events.filter (i.shows setting), ""⟩ := by
  rw [Invocation.run, h]

theorem run_of_error {failure : Failure} (h : i.command.run read = ⟨.error failure, events⟩)
    (setting : Setting) : i.run setting read =
      ⟨1, "", events.filter (i.shows setting),
        "Error: " ++ failure.message ++ "\n"⟩ := by
  rw [Invocation.run, h]

end Outcomes

private theorem notFound_error (name : String) :
    "Error: " ++ (Failure.refused (.notFound name)).message ++ "\n" =
      "Error: Entity not found: " ++ name ++ "\n" := by
  have hmessage : (Failure.refused (.notFound name)).message = "Entity not found: " ++ name := rfl
  rw [hmessage]
  apply String.toList_injective
  simp

private theorem load_error_ne (path : String) (error : LoadError) (name : String) :
    "Error: " ++ (Failure.load path error).message ++ "\n" ≠
      "Error: Entity not found: " ++ name ++ "\n" := by
  have hmessage : (Failure.load path error).message =
      "Cannot load design " ++ path ++ ": " ++ error.chain := rfl
  rw [hmessage]
  intro h
  have hchars := congrArg String.toList h
  simp at hchars

/-- A command that is accepted succeeds exactly if its file holds a valid document that declares
every name asked for, and then prints the complete answer and no error. Otherwise it prints nothing
but one error and has computed nothing. If the file holds a valid document, this error names the
first name that is not declared; a query that asks for no names never complains about one. -/
theorem program_all_or_nothing {arguments : List String} {i : Invocation}
    (haccepted : parse arguments = .ok (.run i)) (setting : Setting) (read : FileReader) :
    let c := i.command
    let o := program arguments setting read
    ((o.exitCode = 0 ∧ o.error = "" ∧ ∃ doc d answer, Holds read c.design doc ∧
        doc.toDesign = .ok d ∧ Answers doc d.provider c.query answer ∧
        Prints c.json answer o.output) ∨
      (o.exitCode = 1 ∧ o.output = "" ∧ (∃ message, o.error = "Error: " ++ message ++ "\n") ∧
        ∀ event ∈ o.log, ∃ design entities usages, event = .loaded design entities usages)) ∧
    (o.exitCode = 0 ↔ ∃ doc, Holds read c.design doc ∧ ∀ name ∈ c.query.names, name ∈ doc.names) ∧
    (∀ doc, Holds read c.design doc → o.exitCode ≠ 0 → ∃ name,
      firstUndeclared? doc c.query.names = some name ∧
        o.error = "Error: Entity not found: " ++ name ++ "\n") ∧
    (∀ kind, c.query = .efferent [] kind →
      ∀ name, o.error ≠ "Error: Entity not found: " ++ name ++ "\n") := by
  intro c o
  have ho : o = i.run setting read := by simp only [o, program, haccepted]
  have hends : Ending read c (i.command.run read) := run_ends read c
  clear_value o
  subst ho
  generalize hrun : i.command.run read = result at hends
  cases hends with
  | unloaded hholds =>
      rw [run_of_error hrun]
      have hnone : ¬ ∃ doc, Holds read c.design doc ∧ ∀ name ∈ c.query.names, name ∈ doc.names := by
        rintro ⟨doc, hdoc, _⟩
        exact hholds doc hdoc
      refine ⟨.inr ⟨rfl, rfl, ⟨_, rfl⟩, by simp⟩, iff_of_false (by simp) hnone, ?_, ?_⟩
      · intro doc hdoc
        exact absurd hdoc (hholds doc)
      · intro kind _ name
        exact load_error_ne _ _ name
  | @undeclared doc name _ _ _ hholds hmissing =>
      obtain ⟨hname, hundeclared⟩ := mem_of_firstUndeclared? hmissing
      rw [run_of_error hrun]
      refine ⟨.inr ⟨rfl, rfl, ⟨_, rfl⟩, ?_⟩, iff_of_false (by simp) ?_, ?_, ?_⟩
      · intro event hevent
        dsimp only at hevent
        have hloaded := List.mem_singleton.1 (List.mem_of_mem_filter hevent)
        exact ⟨_, _, _, hloaded⟩
      · rintro ⟨doc', hdoc', hdeclared⟩
        obtain rfl := hholds.unique hdoc'
        exact hundeclared (hdeclared name hname)
      · intro doc' hdoc' _
        obtain rfl := hholds.unique hdoc'
        exact ⟨name, hmissing, notFound_error name⟩
      · intro kind hquery
        rw [hquery] at hname
        cases hname
  | complete hholds hd hdeclared hanswer =>
      rw [run_of_ok hrun]
      refine ⟨.inl ⟨rfl, rfl, _, _, _, hholds, hd, hanswer, prints_render ..⟩,
        iff_of_true rfl ⟨_, hholds, hdeclared⟩, ?_, ?_⟩
      · intro doc _ hexit
        exact absurd rfl hexit
      · intro kind _ name hempty
        have hchars := congrArg String.toList hempty
        simp at hchars

/-- A class with a method that uses another class. -/
def calledClass : Document :=
  ⟨none, [⟨"c", .classDecl, none⟩, ⟨"m", .method, some "c"⟩, ⟨"x", .classDecl, none⟩], [⟨"m", "x"⟩]⟩

def calledClassFile : String :=
  "[null, [[\"c\", \"class\"], [\"m\", \"method\", \"c\"], [\"x\", \"class\"]], [[\"m\", \"x\"]]]"

theorem holds_calledClassFile {path : String} :
    Holds (fun _ => .ok calledClassFile.toUTF8) path calledClass := by
  -- equality of options is decidable, that of results with an error is not
  have hloaded : (Document.ofBytes calledClassFile.toUTF8).toOption = some calledClass := by
    decide +kernel
  exact holds_iff.2 ⟨Json.ok_of_toOption hloaded, by cbv⟩

theorem eq_of_mem_calledClass {e : Entity} (he : e ∈ calledClass.entities) (hname : e.name = "c") :
    e = ⟨"c", .classDecl, none⟩ := by
  have hcases : e = ⟨"c", .classDecl, none⟩ ∨ e = ⟨"m", .method, some "c"⟩ ∨
      e = ⟨"x", .classDecl, none⟩ := by simpa [calledClass] using he
  rcases hcases with rfl | rfl | rfl
  · rfl
  · exact absurd hname (by decide)
  · exact absurd hname (by decide)

theorem measured_calledClass {d : Design} (hd : calledClass.toDesign = .ok d) :
    measured d.provider ⟨"c", .classDecl, none⟩ = ⟨"c", .classDecl, some 1⟩ := by
  have hrow : (calledClass.toDesign.toOption.map fun d =>
      measured d.provider ⟨"c", .classDecl, none⟩) = some ⟨"c", .classDecl, some 1⟩ := by cbv
  rw [hd] at hrow
  exact Option.some.inj hrow

theorem Answers.eq_replicate {d : Design} (hd : calledClass.toDesign = .ok d) {n : Nat}
    {kind : EntityKind} {rows : List Row}
    (h : Answers calledClass d.provider (.efferent (List.replicate (n + 1) "c") kind) rows) :
    rows = List.replicate (n + 1) ⟨"c", .classDecl, some 1⟩ := by
  generalize hnames : List.replicate (n + 1) "c" = names at h
  cases h with
  | @named _ _ es _ hlisted hdeclared =>
      have hall : ∀ e ∈ es, e = ⟨"c", .classDecl, none⟩ := by
        intro e he
        have hname : e.name ∈ List.replicate (n + 1) "c" :=
          hnames.trans hlisted.symm ▸ List.mem_map_of_mem he
        exact eq_of_mem_calledClass (hdeclared e he) (List.eq_of_mem_replicate hname)
      have hlength : es.length = n + 1 := by
        rw [← List.length_map Entity.name, hlisted, ← hnames, List.length_replicate]
      rw [List.eq_replicate_of_mem hall, List.map_replicate, measured_calledClass hd, hlength]
  | ofKind => cases hnames

/-- A class that is declared has its line as often as it is asked for, or its object; a name that is
not declared, in the midst of others, leaves no row at all. -/
theorem program_calledClass :
    let read : FileReader := fun _ => .ok calledClassFile.toUTF8
    let o := program ["ce", "d.json", "c", "c"] {} read
    let o' := program ["ce", "--json", "d.json", "c"] {} read
    let o'' := program ["ce", "d.json", "c", "ghost", "c"] { text := some "trace" } read
    parse ["ce", "d.json", "c", "c"] =
      .ok (.run ⟨⟨"d.json", .efferent ["c", "c"] .classDecl, false⟩, 0, false⟩) ∧
    parse ["ce", "--json", "d.json", "c"] =
      .ok (.run ⟨⟨"d.json", .efferent ["c"] .classDecl, true⟩, 0, false⟩) ∧
    parse ["ce", "d.json", "c", "ghost", "c"] =
      .ok (.run ⟨⟨"d.json", .efferent ["c", "ghost", "c"] .classDecl, false⟩, 0, false⟩) ∧
    Holds read "d.json" calledClass ∧
    o.exitCode = 0 ∧ o.output = "c\t1\nc\t1\n" ∧ o.error = "" ∧
    o'.exitCode = 0 ∧ Json.Datum.parse o'.output = .ok (.list [.object [("entity", .text "c"),
      ("kind", .text "class"), ("metric", .text "Ce"), ("value", .count 1)]]) ∧
    o''.exitCode = 1 ∧ o''.output = "" ∧ o''.error = "Error: Entity not found: ghost\n" := by
  intro read o o' o''
  have haccepted : parse ["ce", "d.json", "c", "c"] =
      .ok (.run ⟨⟨"d.json", .efferent ["c", "c"] .classDecl, false⟩, 0, false⟩) := by cbv
  have haccepted' : parse ["ce", "--json", "d.json", "c"] =
      .ok (.run ⟨⟨"d.json", .efferent ["c"] .classDecl, true⟩, 0, false⟩) := rfl
  have haccepted'' : parse ["ce", "d.json", "c", "ghost", "c"] =
      .ok (.run ⟨⟨"d.json", .efferent ["c", "ghost", "c"] .classDecl, false⟩, 0, false⟩) := by cbv
  have hholds : Holds read "d.json" calledClass := holds_calledClassFile
  obtain ⟨hending, hexit, -⟩ := program_all_or_nothing haccepted {} read
  obtain ⟨hending', hexit', -⟩ := program_all_or_nothing haccepted' {} read
  obtain ⟨hending'', hexit'', hfirst'', -⟩ :=
    program_all_or_nothing haccepted'' { text := some "trace" } read
  have hzero : o.exitCode = 0 := hexit.2 ⟨_, hholds, by decide⟩
  have hzero' : o'.exitCode = 0 := hexit'.2 ⟨_, hholds, by decide⟩
  have hone : o''.exitCode ≠ 0 := by
    intro h
    obtain ⟨doc, hdoc, hdeclared⟩ := hexit''.1 h
    obtain rfl := hholds.unique hdoc
    exact absurd (hdeclared "ghost" (by decide)) (by decide)
  obtain ⟨-, hquiet, doc, d, rows, hdoc, hd, hrows, hprinted⟩ :=
    hending.resolve_right fun h => absurd (hzero.symm.trans h.1) (by decide)
  obtain ⟨-, -, doc', d', rows', hdoc', hd', hrows', hprinted'⟩ :=
    hending'.resolve_right fun h => absurd (hzero'.symm.trans h.1) (by decide)
  obtain ⟨hfailed, hempty, -⟩ := hending''.resolve_left fun h => hone h.1
  obtain ⟨name, hname, herror⟩ := hfirst'' _ hholds hone
  obtain rfl : "ghost" = name := Option.some.inj hname
  obtain rfl := hholds.unique hdoc
  obtain rfl := hholds.unique hdoc'
  obtain rfl := Answers.eq_replicate hd (n := 1) hrows
  obtain rfl := Answers.eq_replicate hd' (n := 0) hrows'
  exact ⟨haccepted, haccepted', haccepted'', hholds, hzero, hprinted.text rfl, hquiet, hzero',
    hprinted'.objects rfl, hfailed, hempty, herror⟩

end CommandLine

end DesignCoupling
