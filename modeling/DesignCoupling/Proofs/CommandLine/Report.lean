import DesignCoupling.CommandLine.Program
import DesignCoupling.Proofs.Design.Likeness
import DesignCoupling.Proofs.Document.Assembly

/-!
# What a command prints

A command prints what the design in its file answers to its query; what it logs, where the file lies
and how the run was set up have no part in it. Designs that are alike give the same rows.
-/

namespace DesignCoupling.CommandLine

variable {d d' : Design}

theorem find_eq_ok_iff {name : String} {e : Entity} :
    find d name = .ok e ↔ d.get? name = some e := by
  unfold find
  cases d.get? name <;> simp

theorem mem_of_mapM_find {names : List String} {es : List Entity}
    (h : names.mapM (find d) = .ok es) : ∀ e ∈ es, e ∈ d.entities := by
  induction names generalizing es with
  | nil =>
      obtain rfl := Except.ok.inj h
      simp
  | cons name names ih =>
      rw [List.mapM_cons] at h
      cases hfirst : find d name with
      | error failure => simp [hfirst, bind, Except.bind] at h
      | ok e =>
          cases hrest : names.mapM (find d) with
          | error failure => simp [hfirst, hrest, bind, Except.bind] at h
          | ok rest =>
              simp only [hfirst, hrest, bind, Except.bind, pure, Except.pure] at h
              obtain rfl := Except.ok.inj h
              have he : e ∈ d.entities :=
                Array.mem_toList_iff.1 (Design.mem_of_get? (find_eq_ok_iff.1 hfirst))
              exact List.forall_mem_cons.2 ⟨he, ih hrest⟩

theorem mem_of_chosen {names : List String} {kind : EntityKind} {es : List Entity}
    (h : chosen d names kind = .ok es) : ∀ e ∈ es, e ∈ d.entities := by
  unfold chosen at h
  split at h
  · obtain rfl := Except.ok.inj h
    intro e he
    exact Array.mem_toList_iff.1 (List.mem_filter.1 (List.mem_mergeSort.1 he)).1
  · exact mem_of_mapM_find h

theorem value_rows_efferent (names : List String) (kind : EntityKind) :
    (rows d (.efferent names kind)).value =
      (chosen d names kind).map fun es =>
        es.map fun e => ⟨e.name, e.kind, some (d.provider.efferentCoupling e)⟩ := by
  cases hes : chosen d names kind with
  | error failure => simp only [rows, hes, Logged.value_pure, Except.map]
  | ok es =>
      simp only [rows, hes, Logged.value_bind, Logged.value_pure, Logged.value_mapM, efferentRow,
        Provider.value_efferentCouplingLogged, Except.map]

theorem value_rows_related (name : String) (direct : Bool) :
    (rows d (.related name direct)).value =
      (find d name).map fun e =>
        (if direct then d.provider.directRelated e else d.provider.related e).sorted.map
          fun x => ⟨x.name, x.kind, none⟩ := by
  cases he : find d name with
  | error failure => simp only [rows, he, Logged.value_pure, Except.map]
  | ok e =>
      simp only [rows, he, relatedRows, Except.map]
      cases direct with
      | false =>
          simp only [Bool.false_eq_true, if_false, Logged.value_bind, Logged.value_pure,
            Provider.value_relatedLogged]
      | true =>
          simp only [if_true, Logged.value_bind, Logged.value_pure,
            Provider.value_directRelatedLogged]

end DesignCoupling.CommandLine

namespace DesignCoupling.Design.Alike

open CommandLine

variable {d d' : Design}

theorem find_eq (h : Alike d d') : find d = find d' := by
  funext name
  rw [find, find, h.get?_eq]

theorem chosen_eq (h : Alike d d') (names : List String) (kind : EntityKind) :
    chosen d names kind = chosen d' names kind := by
  rw [chosen, chosen, h.find_eq, h.byName_ofKind_eq]

theorem value_rows_eq (h : Alike d d') (query : Query) :
    (rows d query).value = (rows d' query).value := by
  cases query with
  | efferent names kind =>
      rw [value_rows_efferent, value_rows_efferent, ← h.chosen_eq]
      cases hes : chosen d names kind with
      | error failure => simp only [Except.map]
      | ok es =>
          apply congrArg Except.ok
          apply List.map_congr_left
          intro e he
          rw [h.efferentCoupling_eq (mem_of_chosen hes e he)]
  | related name direct =>
      rw [value_rows_related, value_rows_related, ← h.find_eq]
      cases hfind : find d name with
      | error failure => simp only [Except.map]
      | ok e =>
          have he : e ∈ d.entities :=
            Array.mem_toList_iff.1 (mem_of_get? (find_eq_ok_iff.1 hfind))
          cases direct with
          | false => simp only [Except.map, Bool.false_eq_true, if_false, h.sorted_related_eq he]
          | true => simp only [Except.map, if_true, h.sorted_directRelated_eq he]

end DesignCoupling.Design.Alike

namespace DesignCoupling.CommandLine

/-- What a document has to say to a query, as text. A document that is not valid says nothing, and
neither does one that lacks a name asked for. -/
def report (doc : Document) (query : Query) (json : Bool) : String :=
  match doc.toDesign with
  | .error _ => ""
  | .ok d =>
      match (rows d query).value with
      | .error _ => ""
      | .ok rows => render json rows

theorem report_of_invalid {doc : Document} {query : Query} {json : Bool}
    (h : ¬ doc.validate = .ok ()) : report doc query json = "" := by
  cases hdefect : doc.validate with
  | ok => exact absurd hdefect h
  | error defect => simp only [report, Document.toDesign_eq_error hdefect]

theorem value_run {read : FileReader} {c : Command} {doc : Document}
    (hload : Document.load read c.design = .ok doc) :
    (c.run read).value =
      match doc.toDesign with
      | .error defect => .error (.load c.design (.invalid defect))
      | .ok d => (rows d c.query).value.map (render c.json) := by
  cases hd : doc.toDesign with
  | error defect =>
      simp only [Command.run, loadDesign, hload, hd, Logged.value_bind, Logged.value_pure,
        Document.value_toDesignLogged, Except.mapError]
  | ok d =>
      simp only [Command.run, loadDesign, hload, hd, Logged.value_bind, Logged.value_pure,
        Document.value_toDesignLogged, Except.mapError]
      cases (rows d c.query).value with
      | error failure => rfl
      | ok rows => rfl

/-- A run prints the report of the document that it reads. -/
theorem output_run {i : Invocation} {setting : Setting} {read : FileReader} {doc : Document}
    (hload : Document.load read i.command.design = .ok doc) :
    (i.run setting read).output = report doc i.command.query i.command.json := by
  simp only [Invocation.run, report, value_run hload]
  cases doc.toDesign with
  | error defect => rfl
  | ok d =>
      cases hrows : (rows d i.command.query).value with
      | error failure => simp only [hrows, Except.map]
      | ok rows => simp only [hrows, Except.map]

end DesignCoupling.CommandLine
