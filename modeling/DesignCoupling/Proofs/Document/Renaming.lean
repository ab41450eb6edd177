import DesignCoupling.Proofs.Coupling.Renaming
import DesignCoupling.Proofs.Document.Assembly

/-!
# Renaming a document

A valid document answers the questions of the analysis from its records and usages, so its design
is a table of names and nothing more. When all names of a document are replaced, different ones by
different ones, validation finds the same defect under its new name, and the analysis of the design
is the old one under the new names. No name means anything by its letters: one may be empty, begin
like another, or be taken over from another entity.
-/

namespace DesignCoupling

def Usage.rename (f : String → String) (u : Usage) : Usage := ⟨f u.source, f u.target⟩

def Design.Refusal.rename (f : String → String) : Design.Refusal → Design.Refusal
  | notFound name => notFound (f name)
  | otherParent child current requested => otherParent (f child) (f current) (f requested)
  | containsItself name => containsItself (f name)

def Defect.rename (f : String → String) : Defect → Defect
  | duplicate name => duplicate (f name)
  | containsItself name => containsItself (f name)
  | unknownParent name parent => unknownParent (f name) (f parent)
  | unknownEndpoint usage name => unknownEndpoint (usage.rename f) (f name)
  | cycle name => cycle (f name)
  | refused refusal => refused (refusal.rename f)

namespace Document

/-- The document with every name of an entity, a container or an end of a usage replaced. It keeps
its own title. -/
def rename (f : String → String) (doc : Document) : Document where
  name := doc.name
  entities := doc.entities.map (Entity.rename f)
  usages := doc.usages.map (Usage.rename f)

variable {f : String → String} {doc : Document}

private theorem climb_up {parentOf : String → Option String} {clear fresh : List String}
    {name parent : String} (hclear : name ∉ clear) (hfresh : name ∈ fresh)
    (hup : parentOf name = some parent) :
    climb parentOf clear fresh name =
      (climb parentOf clear (Search.without fresh name) parent).map (name :: ·) := by
  rw [climb, if_neg hclear, dif_pos hfresh, hup]
  simp only
  cases climb parentOf clear (Search.without fresh name) parent <;> rfl

section Validation

variable (hf : Function.Injective f)

theorem names_rename (f : String → String) (doc : Document) :
    (doc.rename f).names = doc.names.map f := by
  unfold names rename
  rw [List.map_map, List.map_map]
  rfl

include hf

theorem mem_names_rename {name : String} : f name ∈ (doc.rename f).names ↔ name ∈ doc.names := by
  rw [names_rename, List.mem_map_of_injective hf]

theorem entity?_rename (name : String) :
    (doc.rename f).entity? (f name) = (doc.entity? name).map (Entity.rename f) := by
  have hsame : (fun e : Entity => e.name == f name) ∘ Entity.rename f = fun e => e.name == name := by
    funext e
    simp [hf.eq_iff]
  unfold entity? rename
  rw [List.find?_map, hsame]

theorem parentOf_rename (name : String) :
    (doc.rename f).parentOf (f name) = (doc.parentOf name).map f := by
  change ((doc.rename f).entity? (f name)).bind Entity.parent = _
  rw [entity?_rename hf, Option.bind_map, parentOf, Option.map_bind]
  rfl

theorem firstRepeated_map (seen names : List String) :
    firstRepeated (seen.map f) (names.map f) = (firstRepeated seen names).map f := by
  induction names generalizing seen with
  | nil => rfl
  | cons name names ih =>
      rw [List.map_cons, firstRepeated, firstRepeated, ← List.map_cons, ih]
      simp only [List.mem_map_of_injective hf]
      split <;> rfl

theorem parentDefect_rename (e : Entity) :
    (doc.rename f).parentDefect (e.rename f) = (doc.parentDefect e).map (Defect.rename f) := by
  unfold parentDefect
  rw [Entity.parent_rename]
  cases e.parent with
  | none => rfl
  | some parent =>
      simp only [Option.map_some, Entity.name_rename, hf.eq_iff, mem_names_rename hf]
      split
      · rfl
      · split <;> rfl

theorem usageDefect_rename (u : Usage) :
    (doc.rename f).usageDefect (u.rename f) = (doc.usageDefect u).map (Defect.rename f) := by
  unfold usageDefect
  simp only [Usage.rename, mem_names_rename hf]
  split
  · rfl
  · split <;> rfl

/-- A walk up among new names passes the new names of those passed, or fails at the new name of the
one met twice. -/
theorem climb_map {parentOf parentOf' : String → Option String}
    (hup : ∀ name, parentOf' (f name) = (parentOf name).map f) (clear fresh : List String)
    (name : String) :
    climb parentOf' (clear.map f) (fresh.map f) (f name) =
      ((climb parentOf clear fresh name).map (List.map f)).mapError f := by
  have hmem : ∀ {names : List String} {name : String}, f name ∈ names.map f ↔ name ∈ names :=
    List.mem_map_of_injective hf
  fun_induction climb parentOf clear fresh name with
  | case1 fresh name hclear =>
      rw [climb, if_pos (hmem.2 hclear)]
      rfl
  | case2 fresh name hclear hfresh _ htop =>
      rw [climb, if_neg (mt hmem.1 hclear), dif_pos (hmem.2 hfresh), hup, htop]
      rfl
  | case3 fresh name hclear hfresh _ parent hparent passed habove ih =>
      have hup' : parentOf' (f name) = some (f parent) := by rw [hup, hparent, Option.map_some]
      rw [climb_up (mt hmem.1 hclear) (hmem.2 hfresh) hup', Search.without_map hf, ih, habove]
      rfl
  | case4 fresh name hclear hfresh _ parent hparent again habove ih =>
      have hup' : parentOf' (f name) = some (f parent) := by rw [hup, hparent, Option.map_some]
      rw [climb_up (mt hmem.1 hclear) (hmem.2 hfresh) hup', Search.without_map hf, ih, habove]
      rfl
  | case5 fresh name hclear hfresh =>
      rw [climb, if_neg (mt hmem.1 hclear), dif_neg (mt hmem.1 hfresh)]
      rfl

theorem firstCycle_rename (clear : List String) (es : List Entity) :
    (doc.rename f).firstCycle (clear.map f) (es.map (Entity.rename f)) =
      (doc.firstCycle clear es).map f := by
  induction es generalizing clear with
  | nil => rfl
  | cons e es ih =>
      rw [List.map_cons, firstCycle, firstCycle, names_rename, Entity.name_rename,
        climb_map hf (parentOf_rename hf)]
      cases climb doc.parentOf clear doc.names e.name with
      | ok passed =>
          change (doc.rename f).firstCycle (passed.map f ++ clear.map f) _ = _
          rw [← List.map_append, ih]
      | error name => rfl

theorem defect?_rename : (doc.rename f).defect? = doc.defect?.map (Defect.rename f) := by
  have hparents : (doc.rename f).entities.findSome? (doc.rename f).parentDefect =
      (doc.entities.findSome? doc.parentDefect).map (Defect.rename f) := by
    rw [rename, List.findSome?_map, List.map_findSome?]
    congr 1
    exact funext (parentDefect_rename hf)
  have husages : (doc.rename f).usages.findSome? (doc.rename f).usageDefect =
      (doc.usages.findSome? doc.usageDefect).map (Defect.rename f) := by
    rw [rename, List.findSome?_map, List.map_findSome?]
    congr 1
    exact funext (usageDefect_rename hf)
  have hrepeated : firstRepeated [] (doc.names.map f) = (firstRepeated [] doc.names).map f :=
    firstRepeated_map hf [] doc.names
  have hcycle : (doc.rename f).firstCycle [] (doc.rename f).entities =
      (doc.firstCycle [] doc.entities).map f := firstCycle_rename hf [] doc.entities
  unfold defect?
  rw [hparents, husages, hcycle, names_rename, hrepeated]
  simp only [Option.orElse_eq_orElse, Option.orElse_eq_or, Option.map_or, Option.map_map]
  rfl

theorem validate_rename :
    (doc.rename f).validate = doc.validate.mapError (Defect.rename f) := by
  unfold validate
  rw [defect?_rename hf]
  cases doc.defect? <;> rfl

end Validation

/-- What a document answers by itself, by name alone. -/
def tables (doc : Document) : NeighbourTables where
  entities := doc.entities
  usedBy := usedNames doc.usages
  usersOf := userNames doc.usages
  children := contentNames doc.entities

theorem Shows.provider_eq {d : Design} (h : Shows d doc.entities [] doc.usages)
    (hdistinct : doc.names.Nodup) : d.provider = doc.tables.provider := by
  have hlookup : d.get? = doc.tables.lookup := h.get?_eq hdistinct
  have hused : ∀ e, d.provider.usedBy e = (usedNames doc.usages e.name).filterMap d.get? := by
    intro e
    rw [← h.used]
    exact (h.consistent.filterMap_get?_names fun _ => Design.mem_of_usedBy).symm
  have husers : ∀ e, d.provider.usersOf e = (userNames doc.usages e.name).filterMap d.get? := by
    intro e
    rw [← h.users]
    exact (h.consistent.filterMap_get?_names fun _ => Design.mem_of_usersOf).symm
  have hcontents : ∀ e,
      d.provider.children e = (contentNames doc.entities e.name).filterMap d.get? := by
    intro e
    rw [← h.contents]
    apply Eq.symm
    apply h.consistent.filterMap_get?_names
    exact fun _ hc => Array.mem_toList_iff.1 (d.provider.mem_of_children hc)
  rw [hlookup] at hused husers hcontents
  unfold Design.provider NeighbourTables.provider
  rw [Provider.mk.injEq]
  exact ⟨h.entities_eq, hlookup, funext hused, funext husers, funext hcontents⟩

private theorem map_filter_rename {α : Type} {g : α → α} {p p' : α → Bool} {key : α → String}
    (hp : ∀ x, p' (g x) = p x) (hkey : ∀ x, key (g x) = f (key x)) (xs : List α) :
    ((xs.map g).filter p').map key = ((xs.filter p).map key).map f := by
  rw [List.filter_map, List.map_map, List.map_map, show p' ∘ g = p from funext hp,
    show key ∘ g = f ∘ key from funext hkey]

section Tables

variable (hf : Function.Injective f)

include hf

theorem contentNames_rename (es : List Entity) (name : String) :
    contentNames (es.map (Entity.rename f)) (f name) = (contentNames es name).map f := by
  apply map_filter_rename
  · intro e
    rw [Entity.parent_rename, ← Option.map_some, decide_eq_decide,
      (Option.map_injective hf).eq_iff]
  · exact Entity.name_rename

theorem usedNames_rename (us : List Usage) (name : String) :
    usedNames (us.map (Usage.rename f)) (f name) = (usedNames us name).map f := by
  apply map_filter_rename
  · intro u
    exact decide_eq_decide.2 hf.eq_iff
  · exact fun _ => rfl

theorem userNames_rename (us : List Usage) (name : String) :
    userNames (us.map (Usage.rename f)) (f name) = (userNames us name).map f := by
  apply map_filter_rename
  · intro u
    exact decide_eq_decide.2 hf.eq_iff
  · exact fun _ => rfl

theorem filterMap_lookup_rename {names names' : List String} (hnames : names' = names.map f) :
    names'.filterMap (doc.rename f).tables.lookup =
      (names.filterMap doc.tables.lookup).map (Entity.rename f) := by
  have hfound : (doc.rename f).tables.lookup ∘ f =
      fun name => (doc.tables.lookup name).map (Entity.rename f) := funext (entity?_rename hf)
  rw [hnames, List.filterMap_map, List.map_filterMap, hfound]

/-- The tables of any document, valid or not, are renamed with it. -/
theorem renamed_tables (doc : Document) :
    Provider.Renamed f doc.tables.provider (doc.rename f).tables.provider where
  injective := hf
  entities := rfl
  lookup := entity?_rename hf
  usedBy e := filterMap_lookup_rename hf (usedNames_rename hf doc.usages e.name)
  usersOf e := filterMap_lookup_rename hf (userNames_rename hf doc.usages e.name)
  children e := filterMap_lookup_rename hf (contentNames_rename hf doc.entities e.name)

end Tables

/-- A document is accepted exactly if it is accepted under new names, different ones for different
names. If it is, every entity has in the design of the renamed document the renamed neighbours,
contents, class, direct set and aggregated set, lists in the same order, and the same efferent
coupling. -/
theorem analysis_rename (doc : Document) {f : String → String} (hf : Function.Injective f) :
    (doc.validate = .ok () ↔ (doc.rename f).validate = .ok ()) ∧
    (doc.validate = .ok () → ∃ d d', doc.toDesign = .ok d ∧ (doc.rename f).toDesign = .ok d' ∧
      ∀ name ∈ doc.names, ∃ e, d.provider.lookup name = some e ∧
        d'.provider.lookup (f name) = some (e.rename f) ∧
        d'.provider.children (e.rename f) = (d.provider.children e).map (Entity.rename f) ∧
        d'.provider.usedBy (e.rename f) = (d.provider.usedBy e).map (Entity.rename f) ∧
        d'.provider.usersOf (e.rename f) = (d.provider.usersOf e).map (Entity.rename f) ∧
        d'.provider.descendants (e.rename f) =
          (d.provider.descendants e).map (Entity.rename f) ∧
        d'.provider.enclosingClass (e.rename f) =
          (d.provider.enclosingClass e).map (Entity.rename f) ∧
        {x | x ∈ d'.provider.directRelated (e.rename f)} =
          Entity.rename f '' {x | x ∈ d.provider.directRelated e} ∧
        {x | x ∈ d'.provider.related (e.rename f)} =
          Entity.rename f '' {x | x ∈ d.provider.related e} ∧
        d'.provider.efferentCoupling (e.rename f) = d.provider.efferentCoupling e) := by
  have hvalid_iff : doc.validate = .ok () ↔ (doc.rename f).validate = .ok () := by
    rw [validate_rename hf]
    cases doc.validate <;> simp [Except.mapError]
  refine ⟨hvalid_iff, ?_⟩
  intro hvalid
  have hwell := WellFormed.of_validate hvalid
  have hwell' := WellFormed.of_validate (hvalid_iff.1 hvalid)
  obtain ⟨d, hd, hshows⟩ := hwell.shows_toDesign
  obtain ⟨d', hd', hshows'⟩ := hwell'.shows_toDesign
  have hrenamed : Provider.Renamed f d.provider d'.provider := by
    rw [hshows.provider_eq hwell.distinct, hshows'.provider_eq hwell'.distinct]
    exact renamed_tables hf doc
  refine ⟨d, d', hd, hd', ?_⟩
  intro name hname
  obtain ⟨e, he⟩ := exists_entity? hname
  have hlookup : d.provider.lookup name = some e := by
    rw [hshows.provider_eq hwell.distinct]
    exact he
  have hlookup' : d'.provider.lookup (f name) = some (e.rename f) := by
    rw [hrenamed.lookup, hlookup, Option.map_some]
  refine ⟨e, hlookup, hlookup', hrenamed.children e, hrenamed.usedBy e, hrenamed.usersOf e,
    hrenamed.descendants e, hrenamed.enclosingClass e, ?_, ?_, hrenamed.efferentCoupling e⟩
  · rw [hrenamed.directRelated, EntitySet.setOf_map]
  · rw [hrenamed.related, EntitySet.setOf_map]

/-- Names that begin like each other, one of them empty. -/
def prefixedNames : Document where
  name := none
  entities := [⟨"", .package, none⟩, ⟨"a", .classDecl, some ""⟩, ⟨"aa", .method, some "a"⟩,
    ⟨"aaa", .classDecl, none⟩]
  usages := [⟨"aa", "aaa"⟩]

/-- Where every name is taken over from the next, the package is coupled to the same class, which
now has a longer name. -/
theorem analysis_prefixedNames :
    Function.Injective ("a" ++ ·) ∧ prefixedNames.validate = .ok () ∧
      (prefixedNames.rename ("a" ++ ·)).validate = .ok () ∧
      ∃ d, (prefixedNames.rename ("a" ++ ·)).toDesign = .ok d ∧
        d.provider.lookup "a" = some ⟨"a", .package, none⟩ ∧
        d.provider.descendants ⟨"a", .package, none⟩ =
          [⟨"aa", .classDecl, some "a"⟩, ⟨"aaa", .method, some "aa"⟩] ∧
        ⟨"aaaa", .classDecl, none⟩ ∈ d.provider.related ⟨"a", .package, none⟩ ∧
        d.provider.efferentCoupling ⟨"a", .package, none⟩ = 1 := by
  have hf : Function.Injective fun s : String => "a" ++ s :=
    fun _ _ h => (String.append_right_inj "a").1 h
  let p : Entity := ⟨"", .package, none⟩
  have hvalid : prefixedNames.validate = .ok () := by cbv
  obtain ⟨haccepted, hsame⟩ := analysis_rename prefixedNames hf
  obtain ⟨d, d', hd, hd', hnames⟩ := hsame hvalid
  obtain rfl := ofCalls_history hd
  have hfound : (Design.ofCalls prefixedNames.history).provider.lookup "" = some p := by cbv
  have hcontents : (Design.ofCalls prefixedNames.history).provider.descendants p =
      [⟨"a", .classDecl, some ""⟩, ⟨"aa", .method, some "a"⟩] := by cbv
  have hrelated : ((Design.ofCalls prefixedNames.history).provider.related p).elems =
      [⟨"aaa", .classDecl, none⟩] := by cbv
  have hx : ⟨"aaa", .classDecl, none⟩ ∈
      (Design.ofCalls prefixedNames.history).provider.related p := by
    rw [EntitySet.mem_def, hrelated]
    decide
  have hcount : (Design.ofCalls prefixedNames.history).provider.efferentCoupling p = 1 := by cbv
  obtain ⟨e, he, he', _, _, _, hcontents', _, _, hrelated', hcount'⟩ := hnames "" (by decide)
  obtain rfl := Option.some.inj (hfound.symm.trans he)
  refine ⟨hf, hvalid, haccepted.1 hvalid, d', hd', he', ?_, ?_, hcount'.trans hcount⟩
  · exact hcontents'.trans (congrArg (List.map (Entity.rename ("a" ++ ·))) hcontents)
  · have himage : Entity.rename ("a" ++ ·) ⟨"aaa", .classDecl, none⟩ ∈
        {x | x ∈ d'.provider.related (p.rename ("a" ++ ·))} := by
      rw [hrelated']
      exact ⟨_, hx, rfl⟩
    exact himage

end Document

end DesignCoupling
