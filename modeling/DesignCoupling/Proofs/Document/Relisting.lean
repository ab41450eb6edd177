import DesignCoupling.Proofs.CommandLine.Report
import DesignCoupling.Proofs.Document.Insertion
import DesignCoupling.Proofs.Json.Tokens

/-!
# Documents listed in another way

The order in which a document lists records and usages means nothing, and neither does the direction
of a usage, its repetition, or a usage of an entity by itself. A document and another listing of it
are both valid or both not, and where they are valid the designs loaded from them are alike: each
entity is coupled to the same entities, and commands print the same.
-/

namespace DesignCoupling

namespace Usage

/-- The same usage seen from its other end. -/
def turned (u : Usage) : Usage := ⟨u.target, u.source⟩

end Usage

namespace Document

/-- One change to how a document is listed: records in another order, usages in another order, a
usage once more, a usage turned round, or a usage of a declared entity by itself. -/
inductive Relisting : Document → Document → Prop
  | entities {doc : Document} {es : List Entity} (h : es.Perm doc.entities) :
      Relisting doc { doc with entities := es }
  | usages {doc : Document} {us : List Usage} (h : us.Perm doc.usages) :
      Relisting doc { doc with usages := us }
  | again {doc : Document} {u : Usage} (h : u ∈ doc.usages) (i : Nat) :
      Relisting doc (doc.insertUsage i u)
  | turned {doc : Document} {before after : List Usage} {u : Usage}
      (h : doc.usages = before ++ u :: after) :
      Relisting doc { doc with usages := before ++ u.turned :: after }
  | itself {doc : Document} {name : String} (h : name ∈ doc.names) (i : Nat) :
      Relisting doc (doc.insertUsage i ⟨name, name⟩)

/-- What every listing of a document says of a usage: it is listed in one direction or the other, or
it is one of a declared entity by itself. -/
def States (doc : Document) (u : Usage) : Prop :=
  u ∈ doc.usages ∨ u.turned ∈ doc.usages ∨ u.source = u.target ∧ u.source ∈ doc.names

/-- Two documents with the same records that say the same of every usage. -/
structure SameContent (doc doc' : Document) : Prop where
  entities : doc.entities.Perm doc'.entities
  statements : ∀ u, doc.States u ↔ doc'.States u

variable {doc doc' : Document}

namespace States

theorem turned {u : Usage} (h : doc.States u) : doc.States u.turned := by
  rcases h with h | h | ⟨hsame, hname⟩
  · exact .inr (.inl h)
  · exact .inl h
  · exact .inr (.inr ⟨hsame.symm, show u.target ∈ doc.names from hsame ▸ hname⟩)

theorem of_listed {u : Usage} (hnames : ∀ n ∈ doc.names, n ∈ doc'.names)
    (hlisted : ∀ w ∈ doc.usages, doc'.States w) (h : doc.States u) : doc'.States u := by
  rcases h with h | h | ⟨hsame, hname⟩
  · exact hlisted u h
  · exact (hlisted u.turned h).turned
  · exact .inr (.inr ⟨hsame, hnames _ hname⟩)

theorem endpoints_iff :
    (∀ u, doc.States u → u.source ∈ doc.names ∧ u.target ∈ doc.names) ↔
      ∀ u ∈ doc.usages, u.source ∈ doc.names ∧ u.target ∈ doc.names := by
  constructor
  · intro h u hu
    exact h u (.inl hu)
  · intro h u hu
    rcases hu with hu | hu | ⟨hsame, hname⟩
    · exact h u hu
    · exact (h u.turned hu).symm
    · exact ⟨hname, hsame ▸ hname⟩

theorem joined_iff (hdistinct : doc.names.Nodup) {a b : Entity} (hne : a ≠ b) :
    doc.Joined a b ↔ a ∈ doc.entities ∧ b ∈ doc.entities ∧ doc.States ⟨a.name, b.name⟩ := by
  constructor
  · intro h
    rcases h with ⟨ha, hb, u, hu, ⟨hsource, htarget⟩ | ⟨hsource, htarget⟩⟩
    · rw [← hsource, ← htarget]
      exact ⟨ha, hb, .inl hu⟩
    · rw [← hsource, ← htarget]
      exact ⟨ha, hb, .inr (.inl hu)⟩
  · intro h
    rcases h with ⟨ha, hb, h | h | ⟨hsame, _⟩⟩
    · exact ⟨ha, hb, _, h, .inl ⟨rfl, rfl⟩⟩
    · exact ⟨ha, hb, _, h, .inr ⟨rfl, rfl⟩⟩
    · exact absurd (List.inj_on_of_nodup_map hdistinct ha hb hsame) hne

end States

namespace SameContent

theorem refl (doc : Document) : SameContent doc doc := ⟨.refl _, fun _ => Iff.rfl⟩

theorem symm (h : SameContent doc doc') : SameContent doc' doc :=
  ⟨h.entities.symm, fun u => (h.statements u).symm⟩

theorem trans {doc'' : Document} (h : SameContent doc doc') (h' : SameContent doc' doc'') :
    SameContent doc doc'' :=
  ⟨h.entities.trans h'.entities, fun u => (h.statements u).trans (h'.statements u)⟩

theorem of_listed (hentities : doc.entities.Perm doc'.entities)
    (hforth : ∀ u ∈ doc.usages, doc'.States u) (hback : ∀ u ∈ doc'.usages, doc.States u) :
    SameContent doc doc' := by
  have hnames : doc.names.Perm doc'.names := hentities.map _
  exact ⟨hentities, fun u => ⟨.of_listed (fun n => hnames.mem_iff.1) hforth,
    .of_listed (fun n => hnames.mem_iff.2) hback⟩⟩

theorem insertUsage {u : Usage} (h : doc.States u) (i : Nat) :
    SameContent doc (doc.insertUsage i u) := by
  refine .of_listed (.refl _) (fun w hw => .inl (mem_usages_insertUsage.2 (.inr hw))) ?_
  intro w hw
  rcases mem_usages_insertUsage.1 hw with rfl | hw
  · exact h
  · exact .inl hw

theorem perm_names (h : SameContent doc doc') : doc.names.Perm doc'.names := h.entities.map _

theorem entity?_eq (h : SameContent doc doc') (hdistinct : doc.names.Nodup) :
    doc.entity? = doc'.entity? := by
  have hdistinct' := h.perm_names.nodup_iff.1 hdistinct
  funext name
  apply Option.ext
  intro e
  rw [entity?_eq_some_iff hdistinct, entity?_eq_some_iff hdistinct', h.entities.mem_iff]

theorem wellFormed (h : SameContent doc doc') (hwell : doc.WellFormed) : doc'.WellFormed where
  distinct := h.perm_names.nodup_iff.1 hwell.distinct
  containers := by
    intro e he name hname
    obtain ⟨hmem, hne⟩ := hwell.containers e (h.entities.mem_iff.2 he) name hname
    exact ⟨h.perm_names.mem_iff.1 hmem, hne⟩
  endpoints := by
    rw [← States.endpoints_iff]
    intro u hu
    obtain ⟨hsource, htarget⟩ := States.endpoints_iff.2 hwell.endpoints u ((h.statements u).2 hu)
    exact ⟨h.perm_names.mem_iff.1 hsource, h.perm_names.mem_iff.1 htarget⟩
  acyclic := by
    intro e he
    rw [Inside, ← h.entity?_eq hwell.distinct]
    exact hwell.acyclic e (h.entities.mem_iff.2 he)

theorem validate_iff (h : SameContent doc doc') :
    doc.validate = .ok () ↔ doc'.validate = .ok () :=
  ⟨fun hvalid => (h.wellFormed (.of_validate hvalid)).validate,
    fun hvalid => (h.symm.wellFormed (.of_validate hvalid)).validate⟩

/-- The designs loaded from both are alike. -/
theorem alike (h : SameContent doc doc') (hwell : doc.WellFormed) {d d' : Design}
    (hd : Shows d doc.entities [] doc.usages) (hd' : Shows d' doc'.entities [] doc'.usages) :
    Design.Alike d d' where
  left := hd.consistent
  right := hd'.consistent
  entities e := by rw [hd.mem_entities, hd'.mem_entities, h.entities.mem_iff]
  joined u v hne := by
    rw [hd.joined_iff, hd'.joined_iff, States.joined_iff hwell.distinct hne,
      States.joined_iff (h.wellFormed hwell).distinct hne, h.entities.mem_iff, h.entities.mem_iff,
      h.statements]

theorem report_eq (h : SameContent doc doc') (query : CommandLine.Query) (json : Bool) :
    CommandLine.report doc query json = CommandLine.report doc' query json := by
  by_cases hvalid : doc.validate = .ok ()
  · have hwell := WellFormed.of_validate hvalid
    obtain ⟨d, hd, hshows⟩ := hwell.shows_toDesign
    obtain ⟨d', hd', hshows'⟩ := (h.wellFormed hwell).shows_toDesign
    have halike := h.alike hwell hshows hshows'
    simp only [CommandLine.report, hd, hd', halike.value_rows_eq]
  · have hinvalid := mt h.validate_iff.2 hvalid
    rw [CommandLine.report_of_invalid hvalid, CommandLine.report_of_invalid hinvalid]

end SameContent

/-- No single change to the listing changes the content. -/
theorem Relisting.sameContent (h : Relisting doc doc') : SameContent doc doc' := by
  cases h with
  | entities hperm => exact .of_listed hperm.symm (fun u hu => .inl hu) fun u hu => .inl hu
  | usages hperm =>
      exact .of_listed (.refl _) (fun u hu => .inl (hperm.mem_iff.2 hu)) fun u hu =>
        .inl (hperm.mem_iff.1 hu)
  | again hu i => exact .insertUsage (.inl hu) i
  | @turned before after u hsplit =>
      refine .of_listed (.refl _) ?_ ?_
      · intro w hw
        rw [hsplit, List.perm_middle.mem_iff] at hw
        rcases List.mem_cons.1 hw with rfl | hw
        · exact .inr (.inl (List.perm_middle.mem_iff.2 List.mem_cons_self))
        · exact .inl (List.perm_middle.mem_iff.2 (List.mem_cons_of_mem _ hw))
      · intro w hw
        unfold States
        rw [hsplit, List.perm_middle.mem_iff, List.perm_middle.mem_iff]
        rcases List.mem_cons.1 (List.perm_middle.mem_iff.1 hw) with rfl | hw
        · exact .inr (.inl List.mem_cons_self)
        · exact .inl (List.mem_cons_of_mem _ hw)
  | itself hname i => exact .insertUsage (.inr (.inr ⟨rfl, hname⟩)) i

theorem sameContent_of_relistings (h : Relation.ReflTransGen Relisting doc doc') :
    SameContent doc doc' := by
  induction h with
  | refl => exact .refl doc
  | tail _ hstep ih => exact ih.trans hstep.sameContent

/-- A document and any other listing of it are both accepted or both rejected. If they are accepted,
every name finds the same entity in the designs loaded from them, with the same direct and
aggregated sets and the same efferent coupling. In any case a command prints the same for both. -/
theorem coupling_eq_of_relistings (h : Relation.ReflTransGen Relisting doc doc') :
    (doc.validate = .ok () ↔ doc'.validate = .ok ()) ∧
    (doc.validate = .ok () → ∃ d d', doc.toDesign = .ok d ∧ doc'.toDesign = .ok d' ∧
      ∀ name ∈ doc.names, ∃ e, d.provider.lookup name = some e ∧
        d'.provider.lookup name = some e ∧
        (∀ x, x ∈ d.provider.directRelated e ↔ x ∈ d'.provider.directRelated e) ∧
        (∀ x, x ∈ d.provider.related e ↔ x ∈ d'.provider.related e) ∧
        d.provider.efferentCoupling e = d'.provider.efferentCoupling e) ∧
    ∀ (i i' : CommandLine.Invocation) (setting setting' : CommandLine.Setting)
      (read read' : FileReader),
      i.command.query = i'.command.query → i.command.json = i'.command.json →
      load read i.command.design = .ok doc → load read' i'.command.design = .ok doc' →
      (i.run setting read).output = (i'.run setting' read').output := by
  have hsame := sameContent_of_relistings h
  refine ⟨hsame.validate_iff, ?_, ?_⟩
  · intro hvalid
    have hwell := WellFormed.of_validate hvalid
    obtain ⟨d, hd, hshows⟩ := hwell.shows_toDesign
    obtain ⟨d', hd', hshows'⟩ := (hsame.wellFormed hwell).shows_toDesign
    have halike := hsame.alike hwell hshows hshows'
    refine ⟨d, d', hd, hd', ?_⟩
    intro name hname
    obtain ⟨e, he⟩ := exists_entity? hname
    have hmem : e ∈ d.entities := hshows.mem_entities.2 (mem_of_entity? he).1
    have hfound : d.get? name = some e := by rw [hshows.get?_eq hwell.distinct, he]
    have hfound' : d'.get? name = some e := by rw [← halike.get?_eq, hfound]
    exact ⟨e, hfound, hfound', halike.mem_directRelated_iff hmem, halike.mem_related_iff hmem,
      halike.efferentCoupling_eq hmem⟩
  · intro i i' setting setting' read read' hquery hjson hload hload'
    rw [CommandLine.output_run hload, CommandLine.output_run hload', hquery, hjson,
      hsame.report_eq]

/-- A method that uses a class outside the package of its own class. -/
def crossCall : Document where
  name := none
  entities := [⟨"p", .package, none⟩, ⟨"c", .classDecl, some "p"⟩, ⟨"m", .method, some "c"⟩,
    ⟨"x", .classDecl, none⟩]
  usages := [⟨"m", "x"⟩]

/-- The same, with members before their containers and every idle usage there can be. -/
def crossCallRelisted : Document where
  name := none
  entities := [⟨"x", .classDecl, none⟩, ⟨"m", .method, some "c"⟩, ⟨"c", .classDecl, some "p"⟩,
    ⟨"p", .package, none⟩]
  usages := [⟨"x", "m"⟩, ⟨"m", "x"⟩, ⟨"c", "c"⟩]

def crossCallFile : String :=
  "[null, [[\"p\", \"package\"], [\"c\", \"class\", \"p\"], [\"m\", \"method\", \"c\"], " ++
    "[\"x\", \"class\"]], [[\"m\", \"x\"]]]"

def crossCallRelistedFile : String :=
  "[null, [[\"x\", \"class\"], [\"m\", \"method\", \"c\"], [\"c\", \"class\", \"p\"], " ++
    "[\"p\", \"package\"]], [[\"x\", \"m\"], [\"m\", \"x\"], [\"c\", \"c\"]]]"

/-- Read from files that list it in these two ways, the class of the method is coupled to the class
outside, and every command prints the same. -/
theorem coupling_crossCallRelisted :
    Relation.ReflTransGen Relisting crossCall crossCallRelisted ∧
    crossCall.validate = .ok () ∧ crossCallRelisted.validate = .ok () ∧
    (∃ d d' c, crossCall.toDesign = .ok d ∧ crossCallRelisted.toDesign = .ok d' ∧
      d.provider.lookup "c" = some c ∧ d'.provider.lookup "c" = some c ∧
      (d.provider.related c).elems = [⟨"x", .classDecl, none⟩] ∧
      (∀ y, y ∈ d'.provider.related c ↔ y = ⟨"x", .classDecl, none⟩) ∧
      d'.provider.efferentCoupling c = 1) ∧
    ∀ (query : CommandLine.Query) (json : Bool),
      ((⟨⟨"a.json", query, json⟩, 0, false⟩ : CommandLine.Invocation).run {}
        fun _ => .ok crossCallFile.toUTF8).output =
      ((⟨⟨"b.json", query, json⟩, 0, false⟩ : CommandLine.Invocation).run {}
        fun _ => .ok crossCallRelistedFile.toUTF8).output := by
  have hreversed : Relisting crossCall ⟨none, crossCallRelisted.entities, [⟨"m", "x"⟩]⟩ :=
    .entities (by decide)
  have hagain : Relisting ⟨none, crossCallRelisted.entities, [⟨"m", "x"⟩]⟩
      ⟨none, crossCallRelisted.entities, [⟨"m", "x"⟩, ⟨"m", "x"⟩]⟩ :=
    .again (show ⟨"m", "x"⟩ ∈ _ from by decide) 1
  have hturned : Relisting ⟨none, crossCallRelisted.entities, [⟨"m", "x"⟩, ⟨"m", "x"⟩]⟩
      ⟨none, crossCallRelisted.entities, [⟨"m", "x"⟩, ⟨"x", "m"⟩]⟩ :=
    .turned (show _ = [⟨"m", "x"⟩] ++ ⟨"m", "x"⟩ :: [] from rfl)
  have hitself : Relisting ⟨none, crossCallRelisted.entities, [⟨"m", "x"⟩, ⟨"x", "m"⟩]⟩
      ⟨none, crossCallRelisted.entities, [⟨"c", "c"⟩, ⟨"m", "x"⟩, ⟨"x", "m"⟩]⟩ :=
    .itself (show "c" ∈ _ from by decide) 0
  have hreordered : Relisting
      ⟨none, crossCallRelisted.entities, [⟨"c", "c"⟩, ⟨"m", "x"⟩, ⟨"x", "m"⟩]⟩ crossCallRelisted :=
    .usages (by decide)
  have hlistings : Relation.ReflTransGen Relisting crossCall crossCallRelisted :=
    .tail (.tail (.tail (.tail (.single hreversed) hagain) hturned) hitself) hreordered
  obtain ⟨hvalid_iff, hcoupling, hprinted⟩ := coupling_eq_of_relistings hlistings
  have hvalid : crossCall.validate = .ok () := by cbv
  have hclass : (Design.ofCalls crossCall.history).provider.lookup "c" =
      some ⟨"c", .classDecl, some "p"⟩ := by cbv
  have hrelated : ((Design.ofCalls crossCall.history).provider.related
      ⟨"c", .classDecl, some "p"⟩).elems = [⟨"x", .classDecl, none⟩] := by cbv
  have hcount : (Design.ofCalls crossCall.history).provider.efferentCoupling
      ⟨"c", .classDecl, some "p"⟩ = 1 := by cbv
  -- equality of options is decidable, that of results with an error is not
  have hread : ofBytes crossCallFile.toUTF8 = .ok crossCall :=
    Json.ok_of_toOption (by decide +kernel)
  have hread' : ofBytes crossCallRelistedFile.toUTF8 = .ok crossCallRelisted :=
    Json.ok_of_toOption (by decide +kernel)
  refine ⟨hlistings, hvalid, hvalid_iff.1 hvalid, ?_, ?_⟩
  · obtain ⟨d, d', hd, hd', hnames⟩ := hcoupling hvalid
    obtain rfl := ofCalls_history hd
    obtain ⟨c, hc, hc', _, hsame, hcount'⟩ := hnames "c" (by decide)
    obtain rfl := Option.some.inj (hclass.symm.trans hc)
    refine ⟨_, d', _, hd, hd', hclass, hc', hrelated, ?_, hcount'.symm.trans hcount⟩
    intro y
    rw [← hsame, EntitySet.mem_def, hrelated, List.mem_singleton]
  · intro query json
    exact hprinted _ _ {} {} _ _ rfl rfl hread hread'

end Document

end DesignCoupling
