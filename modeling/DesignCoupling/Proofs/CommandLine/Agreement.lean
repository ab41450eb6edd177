import DesignCoupling.Proofs.CommandLine.Arguments
import DesignCoupling.Proofs.CommandLine.Completion

/-!
# Agreement

The list of related entities has as many rows as the coupling says, whether it is asked for by name,
among all entities of the kind, or without a command. The two forms of an output hold the same rows:
the objects are read back from their text, whatever characters the names consist of.
-/

namespace DesignCoupling

namespace CommandLine

/-- What becomes of a command line that is accepted as this command. -/
def Runs (read : FileReader) (c : Command) (o : Outcome) : Prop :=
  ∃ arguments setting i, parse arguments = .ok (.run i) ∧ i.command = c ∧
    o = program arguments setting read

/-- A query can be put to the file in both forms, and is answered with these rows in both. -/
structure Yields (read : FileReader) (path : String) (query : Query) (rows : List Row) : Prop where
  exists_run : path ≠ "" → ∀ json, ∃ o, Runs read ⟨path, query, json⟩ o
  prints : ∀ json o, Runs read ⟨path, query, json⟩ o →
    o.exitCode = 0 ∧ o.error = "" ∧ Prints json rows o.output

section Runs

variable {read : FileReader} {c : Command} {o : Outcome}

theorem Runs.prints {doc : Document} {d : Design} {answer : List Row} (h : Runs read c o)
    (hload : Document.load read c.design = .ok doc) (hd : doc.toDesign = .ok d)
    (hrows : (rows d c.query).value = .ok answer) :
    o.exitCode = 0 ∧ o.error = "" ∧ Prints c.json answer o.output := by
  obtain ⟨arguments, setting, i, haccepted, rfl, rfl⟩ := h
  have hvalue : (i.command.run read).value = .ok (render i.command.json answer) := by
    rw [value_run hload, hd]
    simp only [hrows, Except.map]
  simp only [program, haccepted, Invocation.run, hvalue, true_and]
  exact prints_render ..

theorem Runs.fails (h : Runs read c o) (hnot : ¬ ∃ doc, Holds read c.design doc ∧
    ∀ name ∈ c.query.names, name ∈ doc.names) : o.exitCode = 1 ∧ o.output = "" := by
  obtain ⟨arguments, setting, i, haccepted, rfl, rfl⟩ := h
  have ho : program arguments setting read = i.run setting read := by
    simp only [program, haccepted]
  have hends : Ending read i.command (i.command.run read) := run_ends read i.command
  rw [ho]
  generalize hrun : i.command.run read = result at hends
  cases hends with
  | unloaded _ => simp only [run_of_error hrun, and_self]
  | undeclared _ _ => simp only [run_of_error hrun, and_self]
  | complete hholds _ hdeclared _ => exact absurd ⟨_, hholds, hdeclared⟩ hnot

end Runs

theorem exists_runs (read : FileReader) {c : Command} (h : c.design ≠ "") : ∃ o, Runs read c o :=
  ⟨_, arguments c, {}, _, parse_arguments h, rfl, rfl⟩

theorem value_rows_ofKind (d : Design) (kind : EntityKind) :
    (rows d (.efferent [] kind)).value =
      .ok ((EntitySet.byName (d.ofKind kind)).map (measured d.provider)) := by
  rw [value_rows_efferent]
  rfl

theorem length_listed (P : Provider) (e : Entity) :
    ((P.related e).sorted.map listed).length = P.efferentCoupling e := by
  rw [List.length_map, EntitySet.length_sorted]
  rfl

section Found

variable {d : Design} {e : Entity} (hfound : find d e.name = .ok e)

include hfound

theorem efferentCouplingOf_eq :
    d.provider.efferentCouplingOf e.name = .ok (d.provider.efferentCoupling e) := by
  have hlookup : d.provider.lookup e.name = some e := find_eq_ok_iff.1 hfound
  rw [Provider.efferentCouplingOf, hlookup]
  rfl

theorem value_rows_named (kind : EntityKind) :
    (rows d (.efferent [e.name] kind)).value = .ok [measured d.provider e] := by
  have hchosen : chosen d [e.name] kind = .ok [e] := by
    rw [chosen, if_neg (by simp), List.mapM_cons, hfound]
    rfl
  rw [value_rows_efferent, hchosen]
  rfl

theorem value_rows_listed :
    (rows d (.related e.name false)).value = .ok ((d.provider.related e).sorted.map listed) := by
  rw [value_rows_related, hfound]
  rfl

end Found

theorem measured_unique {d : Design} (hd : d.Consistent) {e : Entity} (he : e ∈ d.entities) :
    measured d.provider e ∈ (EntitySet.byName (d.ofKind e.kind)).map (measured d.provider) ∧
      ∀ row ∈ (EntitySet.byName (d.ofKind e.kind)).map (measured d.provider),
        row.entity = e.name → row = measured d.provider e := by
  have hmem : ∀ x, x ∈ EntitySet.byName (d.ofKind e.kind) ↔ x ∈ d.entities ∧ x.kind = e.kind := by
    intro x
    rw [mem_byName_ofKind, Array.mem_toList_iff]
  refine ⟨List.mem_map_of_mem ((hmem e).2 ⟨he, rfl⟩), fun row hrow hname => ?_⟩
  obtain ⟨x, hx, rfl⟩ := List.mem_map.1 hrow
  rw [hd.eq_of_name_eq ((hmem x).1 hx).1 he hname]

/-- The rows of a query that a design answers. -/
def answerOf (d : Design) (query : Query) : List Row := (rows d query).value.toOption.getD []

theorem answerOf_eq {d : Design} {query : Query} {answer : List Row}
    (h : (rows d query).value = .ok answer) : answerOf d query = answer := by
  rw [answerOf, h]
  rfl

/-- For every file there is one answer to each query, which every run of it prints as text or as
objects. In these answers, the entity that a valid document declares has as many related ones as
its coupling says, measured by name, among all of its kind and by the library. Where the file or a
name is not right there is no answer in either form. -/
theorem commands_agree (read : FileReader) (path : String) :
    (∀ doc, Holds read path doc → ∃ d, doc.toDesign = .ok d ∧ ∃ answer : Query → List Row,
      (∀ query, (∀ name ∈ query.names, name ∈ doc.names) →
        Answers doc d.provider query (answer query) ∧ Yields read path query (answer query)) ∧
      ∀ e ∈ doc.entities, ∃ n, d.provider.efferentCouplingOf e.name = .ok n ∧
        (answer (.related e.name false)).length = n ∧
        (∀ kind, answer (.efferent [e.name] kind) = [⟨e.name, e.kind, some n⟩]) ∧
        ⟨e.name, e.kind, some n⟩ ∈ answer (.efferent [] e.kind) ∧
        ∀ row ∈ answer (.efferent [] e.kind), row.entity = e.name →
          row = ⟨e.name, e.kind, some n⟩) ∧
    ∀ query, (¬ ∃ doc, Holds read path doc ∧ ∀ name ∈ query.names, name ∈ doc.names) →
      ∀ json o, Runs read ⟨path, query, json⟩ o → o.exitCode = 1 ∧ o.output = "" := by
  refine ⟨?_, fun query hnot json o ho => ho.fails hnot⟩
  intro doc hholds
  obtain ⟨hload, hvalid⟩ := holds_iff.1 hholds
  have hwell := Document.WellFormed.of_validate hvalid
  obtain ⟨d, hd, hshows⟩ := hwell.shows_toDesign
  have hfind := hshows.get?_eq hwell.distinct
  refine ⟨d, hd, answerOf d, ?_, ?_⟩
  · intro query hdeclared
    obtain ⟨es, hes, hrows⟩ := rows_of_declared hshows hwell.distinct hdeclared
    have hanswer : (rows d query).value = .ok (rowsAbout d.provider query es) := by rw [hrows]
    rw [answerOf_eq hanswer]
    exact ⟨hes.answers d.provider, fun hpath json => exists_runs read hpath,
      fun json o ho => ho.prints hload hd hanswer⟩
  · intro e he
    obtain ⟨e', he', hname, hfound⟩ := find_of_mem hfind (List.mem_map_of_mem he)
    obtain rfl := List.inj_on_of_nodup_map hwell.distinct he' he hname
    obtain ⟨hmem, hunique⟩ := measured_unique hshows.consistent
      (Array.mem_toList_iff.1 (Design.mem_of_get? (find_eq_ok_iff.1 hfound)))
    refine ⟨_, efferentCouplingOf_eq hfound, ?_, fun kind => answerOf_eq (value_rows_named hfound kind),
      ?_⟩
    · rw [answerOf_eq (value_rows_listed hfound)]
      exact length_listed d.provider e'
    · rw [answerOf_eq (value_rows_ofKind d e'.kind)]
      exact ⟨hmem, hunique⟩

theorem Answers.eq_related {d : Design} (hd : calledClass.toDesign = .ok d) {rows : List Row}
    (h : Answers calledClass d.provider (.related "c" false) rows) :
    rows = [⟨"x", .classDecl, none⟩] := by
  generalize hname : "c" = name at h
  cases h with
  | @related e he =>
      obtain rfl := eq_of_mem_calledClass he hname.symm
      have hlisted : (calledClass.toDesign.toOption.map fun d =>
          (d.provider.related ⟨"c", .classDecl, none⟩).sorted.map listed) =
          some [⟨"x", .classDecl, none⟩] := by cbv
      rw [hd] at hlisted
      exact Option.some.inj hlisted

/-- The class is coupled to one other, which the list of related ones shows, by name and among all
classes; the objects hold the rows of the text. -/
theorem commands_agree_calledClass :
    let read : FileReader := fun _ => .ok calledClassFile.toUTF8
    (program ["ce", "d.json", "c"] {} read).output = "c\t1\n" ∧
      (program ["related", "d.json", "c"] {} read).output = "x\tclass\n" ∧
      Json.Datum.parse (program ["related", "--json", "d.json", "c"] {} read).output =
        .ok (.list [.object [("entity", .text "x"), ("kind", .text "class")]]) ∧
      ∃ all : List Row, ⟨"c", .classDecl, some 1⟩ ∈ all ∧
        (program ["ce", "d.json"] {} read).output =
          String.join (all.map fun row =>
            row.entity ++ "\t" ++ row.value.elim row.kind.label toString ++ "\n") := by
  intro read
  have hnamed : Runs read ⟨"d.json", .efferent ["c"] .classDecl, false⟩
      (program ["ce", "d.json", "c"] {} read) := ⟨_, _, _, by cbv, rfl, rfl⟩
  have hlisted : Runs read ⟨"d.json", .related "c" false, false⟩
      (program ["related", "d.json", "c"] {} read) := ⟨_, _, _, by cbv, rfl, rfl⟩
  have hobjects : Runs read ⟨"d.json", .related "c" false, true⟩
      (program ["related", "--json", "d.json", "c"] {} read) := ⟨_, _, _, rfl, rfl, rfl⟩
  have hall : Runs read ⟨"d.json", .efferent [] .classDecl, false⟩
      (program ["ce", "d.json"] {} read) := ⟨_, _, _, by cbv, rfl, rfl⟩
  obtain ⟨d, hd, answer, hanswers, hnumbers⟩ :=
    (commands_agree read "d.json").1 _ holds_calledClassFile
  obtain ⟨n, -, hlength, hrow, hmem, -⟩ :=
    hnumbers ⟨"c", .classDecl, none⟩ List.mem_cons_self
  obtain ⟨hrelated, hshown⟩ := hanswers (.related "c" false) (by decide)
  have hothers := hrelated.eq_related hd
  obtain rfl : 1 = n := by rw [← hlength, hothers]; rfl
  have hone := ((hanswers (.efferent ["c"] .classDecl) (by decide)).2.prints _ _ hnamed).2.2
  have htext := (hshown.prints _ _ hlisted).2.2
  have hparsed := (hshown.prints _ _ hobjects).2.2
  have hlines := ((hanswers (.efferent [] .classDecl) (by simp [Query.names])).2.prints _ _ hall).2.2
  rw [hrow] at hone
  rw [hothers] at htext hparsed
  exact ⟨hone.text rfl, htext.text rfl, hparsed.objects rfl, _, hmem, hlines.text rfl⟩

end CommandLine

end DesignCoupling
