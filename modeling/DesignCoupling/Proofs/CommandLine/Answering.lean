import DesignCoupling.Proofs.CommandLine.Report

/-!
# Answers

A query is about some entities: those named, those of a kind, or one. If all names are declared it is
answered by the rows of these entities, which leave their events behind in the same order. Otherwise
the first name that is not declared is reported, before anything is computed.
-/

namespace DesignCoupling

namespace Provider

variable (P : Provider)

def directEvent (e : Entity) : Event := .direct e.name (P.directRelated e).size

/-- The direct sets of an entity and of its contents in order come before its related set. -/
def relatedEvents (e : Entity) : List Event :=
  P.directEvent e :: (P.descendants e).map P.directEvent ++
    [.related e.name (P.descendants e).length (P.related e).size]

def efferentEvents (e : Entity) : List Event :=
  P.relatedEvents e ++ [.efferent e.name (P.related e).size]

theorem events_mergeLogged (s : EntitySet) (contents : List Entity) :
    (P.mergeLogged s contents).events = contents.map P.directEvent := by
  induction contents generalizing s with
  | nil => rfl
  | cons m contents ih =>
      rw [mergeLogged, Logged.events_bind, ih, List.map_cons]
      rfl

@[simp] theorem events_relatedLogged (e : Entity) :
    (P.relatedLogged e).events = P.relatedEvents e := by
  have hset := P.value_relatedLogged e
  simp only [relatedLogged, Logged.value_bind, Logged.value_pure] at hset
  simp only [relatedLogged, Logged.events_bind, Logged.events_pure, Logged.events_tell,
    events_directRelatedLogged, events_mergeLogged, hset, List.append_nil]
  rfl

@[simp] theorem events_efferentCouplingLogged (e : Entity) :
    (P.efferentCouplingLogged e).events = P.efferentEvents e := by
  simp only [efferentCouplingLogged, Logged.events_bind, Logged.events_pure, Logged.events_tell,
    events_relatedLogged, value_relatedLogged, List.append_nil, efferentEvents]

end Provider

namespace CommandLine

/-- The names that a query asks for. -/
def Query.names : Query → List String
  | .efferent names _ => names
  | .related name _ => [name]

/-- The row of an entity with its efferent coupling. -/
def measured (P : Provider) (e : Entity) : Row := ⟨e.name, e.kind, some (P.efferentCoupling e)⟩

/-- The row of an entity in a list of others. -/
def listed (e : Entity) : Row := ⟨e.name, e.kind, none⟩

/-- The complete answers to a query: a row for each name in the order of the names, for no names a
row for each record of the kind in the order of their names, or the set of an entity in order. -/
inductive Answers (doc : Document) (P : Provider) : Query → List Row → Prop
  | named {names : List String} {kind : EntityKind} {es : List Entity} (hnames : names ≠ [])
      (hlisted : es.map Entity.name = names) (hdeclared : ∀ e ∈ es, e ∈ doc.entities) :
      Answers doc P (.efferent names kind) (es.map (measured P))
  | ofKind {kind : EntityKind} {es : List Entity} (hsorted : es.Pairwise fun a b => a.name < b.name)
      (hall : ∀ e, e ∈ es ↔ e ∈ doc.entities ∧ e.kind = kind) :
      Answers doc P (.efferent [] kind) (es.map (measured P))
  | direct {e : Entity} (he : e ∈ doc.entities) :
      Answers doc P (.related e.name true) ((P.directRelated e).sorted.map listed)
  | related {e : Entity} (he : e ∈ doc.entities) :
      Answers doc P (.related e.name false) ((P.related e).sorted.map listed)

/-- The first of some names that a document does not declare. -/
def firstUndeclared? (doc : Document) (names : List String) : Option String :=
  names.find? fun name => name ∉ doc.names

theorem mem_of_firstUndeclared? {doc : Document} {names : List String} {name : String}
    (h : firstUndeclared? doc names = some name) : name ∈ names ∧ name ∉ doc.names :=
  ⟨List.mem_of_find?_eq_some h, by simpa using List.find?_some h⟩

section Entities

variable {doc : Document} {d : Design} (hfind : d.get? = doc.entity?)

include hfind

theorem find_of_mem {name : String} (hname : name ∈ doc.names) :
    ∃ e ∈ doc.entities, e.name = name ∧ find d name = .ok e := by
  obtain ⟨e, he⟩ := Document.exists_entity? hname
  have hmem := Document.mem_of_entity? he
  exact ⟨e, hmem.1, hmem.2, find_eq_ok_iff.2 (by rw [hfind, he])⟩

theorem find_of_not_mem {name : String} (hname : name ∉ doc.names) :
    find d name = .error (.refused (.notFound name)) := by
  have hnone : doc.entity? name = none := by
    cases he : doc.entity? name with
    | none => rfl
    | some e =>
        have hmem := Document.mem_of_entity? he
        exact absurd (List.mem_map.2 ⟨e, hmem⟩) hname
  rw [find, hfind, hnone]

theorem mapM_find_cases (names : List String) :
    (∃ es, names.mapM (find d) = .ok es ∧ es.map Entity.name = names ∧
      ∀ e ∈ es, e ∈ doc.entities) ∨
    ∃ name, firstUndeclared? doc names = some name ∧
      names.mapM (find d) = .error (.refused (.notFound name)) := by
  induction names with
  | nil => exact .inl ⟨[], rfl, rfl, by simp⟩
  | cons name names ih =>
      by_cases hname : name ∈ doc.names
      · obtain ⟨e, he, hename, hfound⟩ := find_of_mem hfind hname
        rw [List.mapM_cons, hfound]
        rcases ih with ⟨es, hes, hnames, hmem⟩ | ⟨missing, hmissing, hes⟩
        · refine .inl ⟨e :: es, by rw [hes]; rfl, ?_, List.forall_mem_cons.2 ⟨he, hmem⟩⟩
          rw [List.map_cons, hename, hnames]
        · refine .inr ⟨missing, ?_, by rw [hes]; rfl⟩
          rw [firstUndeclared?, List.find?_cons_of_neg (by simpa using hname)]
          exact hmissing
      · refine .inr ⟨name, List.find?_cons_of_pos (by simpa using hname), ?_⟩
        rw [List.mapM_cons, find_of_not_mem hfind hname]
        rfl

end Entities

theorem pairwise_byName_ofKind {d : Design} (hd : d.Consistent) (kind : EntityKind) :
    (EntitySet.byName (d.ofKind kind)).Pairwise fun a b => a.name < b.name := by
  have hle := EntitySet.pairwise_byName (d.ofKind kind)
  have hnodup : (EntitySet.byName (d.ofKind kind)).map Entity.name |>.Nodup :=
    ((List.mergeSort_perm _ _).map Entity.name).nodup_iff.2
      (hd.nodup_names.sublist (List.filter_sublist.map Entity.name))
  refine (hle.and (List.pairwise_map.1 hnodup)).imp ?_
  rintro a b ⟨hab, hne⟩
  exact String.not_le.1 fun hba => hne (String.le_antisymm hab hba)

theorem mem_byName_ofKind {d : Design} {kind : EntityKind} {e : Entity} :
    e ∈ EntitySet.byName (d.ofKind kind) ↔ e ∈ d.entities.toList ∧ e.kind = kind := by
  rw [EntitySet.byName, List.mem_mergeSort, Design.ofKind, List.mem_filter, decide_eq_true_eq]

/-- The entities that a query is about, in the order in which it is answered: those named, without
names the records of the kind by name, or the one whose set is asked for. -/
inductive Subjects (doc : Document) : Query → List Entity → Prop
  | named {names : List String} {kind : EntityKind} {es : List Entity} (hnames : names ≠ [])
      (hlisted : es.map Entity.name = names) (hdeclared : ∀ e ∈ es, e ∈ doc.entities) :
      Subjects doc (.efferent names kind) es
  | ofKind {kind : EntityKind} {es : List Entity} (hsorted : es.Pairwise fun a b => a.name < b.name)
      (hall : ∀ e, e ∈ es ↔ e ∈ doc.entities ∧ e.kind = kind) : Subjects doc (.efferent [] kind) es
  | single {e : Entity} {direct : Bool} (he : e ∈ doc.entities) :
      Subjects doc (.related e.name direct) [e]

/-- The rows of an answer about some entities. -/
def rowsAbout (P : Provider) (query : Query) (es : List Entity) : List Row :=
  match query with
  | .efferent _ _ => es.map (measured P)
  | .related _ direct =>
      es.flatMap fun e => (if direct then P.directRelated e else P.related e).sorted.map listed

/-- The events that answering a query leaves behind for an entity. -/
def eventsAbout (P : Provider) (query : Query) (e : Entity) : List Event :=
  match query with
  | .efferent _ _ => P.efferentEvents e
  | .related _ true => [P.directEvent e]
  | .related _ false => P.relatedEvents e

section Rows

variable {doc : Document} {d : Design}

theorem rows_of_chosen {names : List String} {kind : EntityKind} {es : List Entity}
    (h : chosen d names kind = .ok es) : rows d (.efferent names kind) =
      ⟨.ok (es.map (measured d.provider)), es.flatMap d.provider.efferentEvents⟩ := by
  have hvalue : (rows d (.efferent names kind)).value = .ok (es.map (measured d.provider)) := by
    rw [value_rows_efferent, h]
    rfl
  have hevents : (rows d (.efferent names kind)).events =
      es.flatMap d.provider.efferentEvents := by
    simp only [rows, h, efferentRow, Logged.events_bind, Logged.events_mapM, Logged.events_pure,
      Provider.events_efferentCouplingLogged, List.append_nil]
  calc rows d (.efferent names kind)
      = ⟨(rows d (.efferent names kind)).value, (rows d (.efferent names kind)).events⟩ := rfl
    _ = _ := by rw [hvalue, hevents]

theorem rows_of_find {name : String} {direct : Bool} {e : Entity} (h : find d name = .ok e) :
    rows d (.related name direct) =
      ⟨.ok (rowsAbout d.provider (.related name direct) [e]),
        eventsAbout d.provider (.related name direct) e⟩ := by
  have hvalue : (rows d (.related name direct)).value =
      .ok (rowsAbout d.provider (.related name direct) [e]) := by
    rw [value_rows_related, h, rowsAbout, List.flatMap_singleton]
    rfl
  have hevents : (rows d (.related name direct)).events =
      eventsAbout d.provider (.related name direct) e := by
    simp only [rows, h, relatedRows, Logged.events_bind, Logged.events_pure, List.append_nil]
    cases direct with
    | false =>
        simp only [Bool.false_eq_true, if_false, Logged.events_bind, Logged.events_pure,
          List.append_nil, Provider.events_relatedLogged, eventsAbout]
    | true => rfl
  calc rows d (.related name direct)
      = ⟨(rows d (.related name direct)).value, (rows d (.related name direct)).events⟩ := rfl
    _ = _ := by rw [hvalue, hevents]

theorem Subjects.declared {query : Query} {es : List Entity} (h : Subjects doc query es) :
    ∀ name ∈ query.names, name ∈ doc.names := by
  intro name hname
  cases h with
  | named _ hlisted hdeclared =>
      obtain ⟨e, he, rfl⟩ := List.mem_map.1 (hlisted ▸ hname : name ∈ es.map Entity.name)
      exact List.mem_map_of_mem (hdeclared e he)
  | ofKind => cases hname
  | single he =>
      obtain rfl := List.mem_singleton.1 hname
      exact List.mem_map_of_mem he

/-- The rows about the subjects of a query are its complete answer. -/
theorem Subjects.answers {query : Query} {es : List Entity} (h : Subjects doc query es)
    (P : Provider) : Answers doc P query (rowsAbout P query es) := by
  cases h with
  | named hnames hlisted hdeclared => exact .named hnames hlisted hdeclared
  | ofKind hsorted hall => exact .ofKind hsorted hall
  | @single e direct he =>
      rw [rowsAbout, List.flatMap_singleton]
      cases direct with
      | false => exact .related he
      | true => exact .direct he

/-- Either a query has subjects and is answered with their rows, or a name that it asks for is not
declared and nothing is computed. -/
theorem rows_cases (hshows : Document.Shows d doc.entities [] doc.usages) (hdistinct : doc.names.Nodup)
    (query : Query) :
    (∃ es, Subjects doc query es ∧ rows d query =
      ⟨.ok (rowsAbout d.provider query es), es.flatMap (eventsAbout d.provider query)⟩) ∨
    ∃ name, firstUndeclared? doc query.names = some name ∧
      rows d query = ⟨.error (.refused (.notFound name)), []⟩ := by
  have hfind := hshows.get?_eq hdistinct
  cases query with
  | efferent names kind =>
      by_cases hnames : names = []
      · subst hnames
        refine .inl ⟨_, .ofKind (pairwise_byName_ofKind hshows.consistent kind) ?_,
          rows_of_chosen rfl⟩
        intro e
        rw [mem_byName_ofKind, hshows.entities_eq]
      · rcases mapM_find_cases hfind names with ⟨es, hes, hlisted, hmem⟩ | ⟨name, hmissing, herror⟩
        · have hchosen : chosen d names kind = .ok es := by rw [chosen, if_neg hnames, hes]
          exact .inl ⟨es, .named hnames hlisted hmem, rows_of_chosen hchosen⟩
        · have hchosen : chosen d names kind = .error (.refused (.notFound name)) := by
            rw [chosen, if_neg hnames, herror]
          refine .inr ⟨name, hmissing, ?_⟩
          simp only [rows, hchosen]
          rfl
  | related name direct =>
      by_cases hname : name ∈ doc.names
      · obtain ⟨e, he, rfl, hfound⟩ := find_of_mem hfind hname
        refine .inl ⟨[e], .single he, ?_⟩
        rw [rows_of_find hfound, List.flatMap_singleton]
      · refine .inr ⟨name, List.find?_cons_of_pos (by simpa using hname), ?_⟩
        simp only [rows, find_of_not_mem hfind hname]
        rfl

theorem rows_of_declared (hshows : Document.Shows d doc.entities [] doc.usages)
    (hdistinct : doc.names.Nodup) {query : Query}
    (hdeclared : ∀ name ∈ query.names, name ∈ doc.names) :
    ∃ es, Subjects doc query es ∧ rows d query =
      ⟨.ok (rowsAbout d.provider query es), es.flatMap (eventsAbout d.provider query)⟩ := by
  rcases rows_cases hshows hdistinct query with hanswer | ⟨name, hmissing, -⟩
  · exact hanswer
  · obtain ⟨hname, hundeclared⟩ := mem_of_firstUndeclared? hmissing
    exact absurd (hdeclared name hname) hundeclared

end Rows

end CommandLine

end DesignCoupling
