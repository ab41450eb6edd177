import DesignCoupling.Document.Logged
import DesignCoupling.Proofs.Design.Cycles
import DesignCoupling.Proofs.Design.Growth
import DesignCoupling.Proofs.Document.Validation

/-!
# Assembly

The records of a document are declared at the top, then put into their containers, then joined by
the usages. One invariant describes the design at every moment of the three passes by the records
declared so far, those of them that have been placed, and the usages connected so far. When
everything that is named is declared, no step of any pass is refused, and the invariant ends at the
whole document; this needs no word on circles of containers.
-/

namespace DesignCoupling

/-- An entity before it is put into a container. -/
def Entity.atTop (e : Entity) : Entity := { e with parent := none }

namespace Document

/-- The records that name this container, in order. -/
def contentNames (es : List Entity) (name : String) : List String :=
  (es.filter fun e => e.parent = some name).map Entity.name

/-- What the usages of this name use, in order, with repetitions. -/
def usedNames (us : List Usage) (name : String) : List String :=
  (us.filter fun u => u.source = name).map Usage.target

/-- What uses this name, in order, with repetitions. -/
def userNames (us : List Usage) (name : String) : List String :=
  (us.filter fun u => u.target = name).map Usage.source

theorem contentNames_concat (es : List Entity) (e : Entity) (name : String) :
    contentNames (es ++ [e]) name =
      contentNames es name ++ if e.parent = some name then [e.name] else [] := by
  unfold contentNames
  rw [Design.map_filter_concat]
  simp only [decide_eq_true_eq]

theorem usedNames_concat (us : List Usage) (u : Usage) (name : String) :
    usedNames (us ++ [u]) name =
      usedNames us name ++ if u.source = name then [u.target] else [] := by
  unfold usedNames
  rw [Design.map_filter_concat]
  simp only [decide_eq_true_eq]

theorem userNames_concat (us : List Usage) (u : Usage) (name : String) :
    userNames (us ++ [u]) name =
      userNames us name ++ if u.target = name then [u.source] else [] := by
  unfold userNames
  rw [Design.map_filter_concat]
  simp only [decide_eq_true_eq]

/-- A design in which the first of the records have been placed, the others stand at the top, and
some usages are connected. -/
structure Shows (d : Design) (placed waiting : List Entity) (usages : List Usage) : Prop where
  consistent : d.Consistent
  entities : d.entities.toList = placed ++ waiting.map Entity.atTop
  contents : ∀ name, d.outgoing .contains name = contentNames placed name
  used : ∀ name, d.outgoing .uses name = usedNames usages name
  users : ∀ name, d.incoming .uses name = userNames usages name
  count : d.usageCount = usages.length

namespace Shows

variable {d : Design} {placed waiting : List Entity} {usages : List Usage}

theorem empty : Shows .empty [] [] [] where
  consistent := .empty
  entities := rfl
  contents _ := rfl
  used _ := rfl
  users _ := rfl
  count := rfl

theorem names (h : Shows d placed waiting usages) :
    d.entities.toList.map Entity.name = (placed ++ waiting).map Entity.name := by
  rw [h.entities, List.map_append, List.map_append, List.map_map]
  rfl

theorem entities_eq (h : Shows d placed [] usages) : d.entities.toList = placed :=
  h.entities.trans (List.append_nil placed)

theorem exists_indexOf?_iff (h : Shows d placed waiting usages) {name : String} :
    (∃ i, d.indexOf? name = some i) ↔ name ∈ (placed ++ waiting).map Entity.name := by
  rw [h.consistent.exists_indexOf?_iff, h.names]

theorem addEntity (h : Shows d [] waiting []) {e : Entity}
    (hnew : e.name ∉ waiting.map Entity.name) :
    Shows (d.addEntity e.name e.kind).2 [] (waiting ++ [e]) [] := by
  have hfree : d.indexOf? e.name = none := by
    rw [Option.eq_none_iff_forall_ne_some]
    intro i hi
    exact hnew (h.exists_indexOf?_iff.1 ⟨i, hi⟩)
  rw [Design.addEntity_snd, if_pos hfree]
  exact {
    consistent := h.consistent.withEntity hfree e.kind
    entities := by simp [Design.withEntity, h.entities, Entity.atTop]
    contents := fun name => by rw [h.consistent.outgoing_withEntity hfree, h.contents]
    used := fun name => by rw [h.consistent.outgoing_withEntity hfree, h.used]
    users := fun name => by rw [h.consistent.incoming_withEntity hfree, h.users]
    count := by rw [Design.usageCount_withEntity, h.count] }

private theorem modify_middle (f : Entity → Entity) (l r : List Entity) (e : Entity) :
    (l ++ e :: r).modify l.length f = l ++ f e :: r :=
  List.modifyTailIdx_add (List.modifyHead f) 0 l (e :: r)

theorem place {e : Entity} (h : Shows d placed (e :: waiting) [])
    (hparent : ∀ parent, e.parent = some parent →
      parent ∈ (placed ++ e :: waiting).map Entity.name ∧ parent ≠ e.name) :
    ∃ d', Document.place d e = .ok d' ∧ Shows d' (placed ++ [e]) waiting [] := by
  unfold Document.place
  cases hcontainer : e.parent with
  | none =>
      refine ⟨d, rfl, { h with entities := ?_, contents := ?_ }⟩
      · have hsame : e.atTop = e := by rw [Entity.atTop, ← hcontainer]
        simp [h.entities, hsame]
      · intro name
        simp [contentNames_concat, h.contents, hcontainer]
  | some parent =>
      obtain ⟨hdeclared, hne⟩ := hparent parent hcontainer
      obtain ⟨p, hp⟩ := h.exists_indexOf?_iff.2 hdeclared
      have hget : d.entities[placed.length]? = some e.atTop := by
        rw [← Array.getElem?_toList, h.entities]
        simp
      have hc : d.indexOf? e.name = some placed.length :=
        h.consistent.index.2 ⟨e.atTop, hget, rfl⟩
      have hfree : d.entities[placed.length]?.bind Entity.parent = none := by rw [hget]; rfl
      refine ⟨d.withContainment p placed.length parent, ?_, ?_⟩
      · exact Design.addContainment_eq_ok_iff.2 ⟨hne, p, _, hp, hc, .inr ⟨hfree, rfl⟩⟩
      · exact {
          consistent := h.consistent.withContainment hp hc hne hfree
          entities := by
            have hset : { e.atTop with parent := some parent } = e := by
              rw [Entity.atTop, ← hcontainer]
            simp [Design.withContainment, Design.setParent, h.entities, modify_middle, hset]
          contents := fun name => by
            rw [h.consistent.outgoing_withContainment hp hc, h.contents, contentNames_concat,
              hcontainer]
            simp
          used := fun name => by
            rw [h.consistent.outgoing_withContainment hp hc, h.used]
            simp
          users := fun name => by
            rw [h.consistent.incoming_withContainment hp hc, h.users]
            simp
          count := by rw [Design.usageCount_withContainment, h.count] }

theorem addUsage (h : Shows d placed waiting usages) {u : Usage}
    (hsource : u.source ∈ (placed ++ waiting).map Entity.name)
    (htarget : u.target ∈ (placed ++ waiting).map Entity.name) :
    ∃ d', d.addUsage u.source u.target = some d' ∧ Shows d' placed waiting (usages ++ [u]) := by
  obtain ⟨s, hs⟩ := h.exists_indexOf?_iff.2 hsource
  obtain ⟨t, ht⟩ := h.exists_indexOf?_iff.2 htarget
  refine ⟨d.link .uses s t, Design.addUsage_eq_some_iff.2 ⟨s, t, hs, ht, rfl⟩, ?_⟩
  exact {
    consistent := h.consistent.link_uses hs ht
    entities := h.entities
    contents := fun name => by
      rw [h.consistent.outgoing_link hs ht, h.contents]
      simp
    used := fun name => by
      rw [h.consistent.outgoing_link hs ht, h.used, usedNames_concat]
      simp
    users := fun name => by
      rw [h.consistent.incoming_link hs ht, h.users, userNames_concat]
      simp
    count := by
      rw [Design.usageCount_link_uses, h.count, List.length_append, List.length_singleton] }

theorem addEntities (h : Shows d [] waiting []) {es : List Entity}
    (hdistinct : ((waiting ++ es).map Entity.name).Nodup) :
    Shows (es.foldl (fun d e => (d.addEntity e.name e.kind).2) d) [] (waiting ++ es) [] := by
  induction es generalizing d waiting with
  | nil => simpa using h
  | cons e es ih =>
      have hnew : e.name ∉ waiting.map Entity.name := by
        rw [List.map_append, List.map_cons, List.nodup_middle, List.nodup_cons] at hdistinct
        exact fun hmem => hdistinct.1 (List.mem_append_left _ hmem)
      rw [List.append_cons] at hdistinct ⊢
      exact ih (h.addEntity hnew) hdistinct

theorem placeAll {es : List Entity} (h : Shows d placed (es ++ waiting) [])
    (hparents : ∀ e ∈ es, ∀ parent, e.parent = some parent →
      parent ∈ (placed ++ (es ++ waiting)).map Entity.name ∧ parent ≠ e.name) :
    ∃ d', es.foldlM Document.place d = .ok d' ∧ Shows d' (placed ++ es) waiting [] := by
  induction es generalizing d placed with
  | nil => exact ⟨d, rfl, by simpa using h⟩
  | cons e es ih =>
      obtain ⟨next, hplace, hnext⟩ := h.place (hparents e List.mem_cons_self)
      obtain ⟨d', hall, hd'⟩ := ih hnext fun r hr parent hparent => by
        simpa using hparents r (List.mem_cons_of_mem e hr) parent hparent
      refine ⟨d', ?_, by simpa using hd'⟩
      rw [List.foldlM_cons, hplace]
      exact hall

theorem connectAll {us : List Usage} (h : Shows d placed waiting usages)
    (hends : ∀ u ∈ us, u.source ∈ (placed ++ waiting).map Entity.name ∧
      u.target ∈ (placed ++ waiting).map Entity.name) :
    Shows (us.foldl connect d) placed waiting (usages ++ us) := by
  induction us generalizing d usages with
  | nil => simpa using h
  | cons u us ih =>
      obtain ⟨hsource, htarget⟩ := hends u List.mem_cons_self
      obtain ⟨next, hlinked, hnext⟩ := h.addUsage hsource htarget
      have hconnect : connect d u = next := by rw [connect, hlinked, Option.getD_some]
      rw [List.foldl_cons, hconnect, List.append_cons]
      exact ih hnext fun v hv => hends v (List.mem_cons_of_mem u hv)

end Shows

variable {doc : Document}

namespace Declared

theorem shows_declare (h : doc.Declared) : Shows doc.declare [] doc.entities [] :=
  Shows.empty.addEntities h.distinct

theorem shows_place (h : doc.Declared) {before after : List Entity}
    (hsplit : doc.entities = before ++ after) :
    ∃ d, before.foldlM place doc.declare = .ok d ∧ Shows d before after [] := by
  have hdeclared := h.shows_declare
  rw [hsplit] at hdeclared
  apply hdeclared.placeAll
  intro e he parent hparent
  have hmem : e ∈ doc.entities := hsplit ▸ List.mem_append_left after he
  have hknown := h.containers e hmem parent hparent
  rwa [names, hsplit] at hknown

theorem shows_connect (h : doc.Declared) {d : Design} (hd : Shows d doc.entities [] [])
    {before after : List Usage} (hsplit : doc.usages = before ++ after) :
    Shows (before.foldl connect d) doc.entities [] before := by
  apply hd.connectAll
  intro u hu
  have hmem : u ∈ doc.usages := hsplit ▸ List.mem_append_left after hu
  rw [List.append_nil]
  exact h.endpoints u hmem

theorem shows_assemble (h : doc.Declared) :
    ∃ d, doc.assemble = .ok d ∧ Shows d doc.entities [] doc.usages := by
  obtain ⟨placed, hplaced, hshows⟩ := h.shows_place (List.append_nil doc.entities).symm
  refine ⟨doc.usages.foldl connect placed, ?_, ?_⟩
  · rw [assemble, hplaced]
    rfl
  · exact h.shows_connect hshows (List.append_nil doc.usages).symm

end Declared

theorem WellFormed.shows_toDesign (h : doc.WellFormed) :
    ∃ d, doc.toDesign = .ok d ∧ Shows d doc.entities [] doc.usages := by
  obtain ⟨d, hassemble, hshows⟩ := h.declared.shows_assemble
  refine ⟨d, ?_, hshows⟩
  rw [toDesign, h.validate, hassemble]
  rfl

theorem toDesign_eq_error {defect : Defect} (h : doc.validate = .error defect) :
    doc.toDesign = .error defect := by
  rw [toDesign, h]
  rfl

theorem validate_of_toDesign {d : Design} (h : doc.toDesign = .ok d) : doc.validate = .ok () := by
  cases hvalidate : doc.validate with
  | ok => rfl
  | error defect =>
      rw [toDesign_eq_error hvalidate] at h
      simp at h

theorem assemble_of_toDesign {d : Design} (h : doc.toDesign = .ok d) : doc.assemble = .ok d := by
  rw [toDesign, validate_of_toDesign h] at h
  cases hassemble : doc.assemble with
  | error refusal =>
      rw [hassemble] at h
      cases h
  | ok assembled =>
      rw [hassemble] at h
      exact congrArg Except.ok (Except.ok.inj h)

/-- The usages are linked in what is there once all records are in their containers. -/
theorem exists_placed {d : Design} (h : doc.assemble = .ok d) :
    ∃ placed, doc.entities.foldlM place doc.declare = .ok placed ∧
      doc.usages.foldl connect placed = d := by
  rw [assemble] at h
  cases hplaced : doc.entities.foldlM place doc.declare with
  | error refusal =>
      rw [hplaced] at h
      cases h
  | ok placed =>
      rw [hplaced] at h
      exact ⟨placed, rfl, Except.ok.inj h⟩

theorem Shows.get?_eq {d : Design} {usages : List Usage} (h : Shows d doc.entities [] usages)
    (hdistinct : doc.names.Nodup) : d.get? = doc.entity? := by
  funext name
  apply Option.ext
  intro e
  rw [h.consistent.get?_eq_some_iff, entity?_eq_some_iff hdistinct, ← Array.mem_toList_iff,
    h.entities_eq]

theorem Shows.hasContainmentCycles_iff {d : Design} {usages : List Usage}
    (h : Shows d doc.entities [] usages) (hdistinct : doc.names.Nodup) :
    d.hasContainmentCycles = true ↔ ∃ e ∈ doc.entities, doc.Inside e e := by
  rw [h.consistent.hasContainmentCycles_iff, h.get?_eq hdistinct]
  simp only [← Array.mem_toList_iff, h.entities_eq]
  rfl

/-- The calls that put the records into their containers. -/
def placements (es : List Entity) : List Design.Call :=
  es.filterMap fun e => e.parent.map fun parent => .addContainment parent e.name

/-- The calls by which a document becomes a design. -/
def history (doc : Document) : List Design.Call :=
  doc.entities.map (fun e => .addEntity e.name e.kind) ++ placements doc.entities ++
    doc.usages.map fun u => .addUsage u.source u.target

private theorem performAll_place {d d' : Design} {e : Entity} (h : place d e = .ok d') :
    d.performAll (placements [e]) = d' := by
  unfold place at h
  cases hparent : e.parent with
  | none =>
      rw [hparent] at h
      simpa [placements, hparent] using Except.ok.inj h
  | some parent =>
      rw [hparent] at h
      simp only at h
      simp [placements, hparent, Design.perform, h]

private theorem performAll_placements {es : List Entity} {d d' : Design}
    (h : es.foldlM place d = .ok d') : d.performAll (placements es) = d' := by
  induction es generalizing d with
  | nil => exact Except.ok.inj h
  | cons e es ih =>
      rw [List.foldlM_cons] at h
      cases hplace : place d e with
      | error refusal =>
          rw [hplace] at h
          cases h
      | ok placed =>
          rw [hplace] at h
          have hsplit : placements (e :: es) = placements [e] ++ placements es :=
            List.filterMap_append (l := [e])
          rw [hsplit, Design.performAll_append, performAll_place hplace]
          exact ih h

/-- Assembling a document is performing its history. -/
theorem ofCalls_history_of_assemble {d : Design} (h : doc.assemble = .ok d) :
    Design.ofCalls doc.history = d := by
  obtain ⟨placed, hplaced, hconnected⟩ := exists_placed h
  have hdeclared : Design.ofCalls (doc.entities.map fun e => .addEntity e.name e.kind) =
      doc.declare := List.foldl_map
  have hused : placed.performAll (doc.usages.map fun u => .addUsage u.source u.target) =
      doc.usages.foldl connect placed := by
    rw [Design.performAll, List.foldl_map]
    congr 1
    funext d u
    unfold connect
    simp only [Design.perform]
    cases d.addUsage u.source u.target <;> rfl
  rw [Design.ofCalls, history, Design.performAll_append, Design.performAll_append]
  rw [← Design.ofCalls, hdeclared, performAll_placements hplaced, hused, hconnected]

theorem ofCalls_history {d : Design} (h : doc.toDesign = .ok d) :
    Design.ofCalls doc.history = d :=
  ofCalls_history_of_assemble (assemble_of_toDesign h)

/-- A design holds a document: its entities are the records in order, and the neighbours of each
are those that the records and usages give it, in their order. -/
structure Represents (doc : Document) (d : Design) : Prop where
  entities : d.provider.entities = doc.entities
  children : ∀ x ∈ doc.entities,
    (d.provider.children x).map Entity.name = contentNames doc.entities x.name
  usedBy : ∀ x ∈ doc.entities, (d.provider.usedBy x).map Entity.name = usedNames doc.usages x.name
  usersOf : ∀ x ∈ doc.entities, (d.provider.usersOf x).map Entity.name = userNames doc.usages x.name
  entityCount : d.entityCount = doc.entities.length
  usageCount : d.usageCount = doc.usages.length
  acyclic : d.hasContainmentCycles = false

/-- No call is refused during the assembly: after any of the records the next one enters its
container, and after any of the usages the next one is linked. -/
structure Unrefused (doc : Document) : Prop where
  containments : ∀ before e after parent, doc.entities = before ++ e :: after →
    e.parent = some parent → ∃ d d', before.foldlM place doc.declare = .ok d ∧
      d.addContainment parent e.name = .ok d'
  usages : ∀ before u after, doc.usages = before ++ u :: after →
    ∃ placed d', doc.entities.foldlM place doc.declare = .ok placed ∧
      (before.foldl connect placed).addUsage u.source u.target = some d'

theorem Shows.represents {d : Design} (h : Shows d doc.entities [] doc.usages)
    (hwell : doc.WellFormed) : doc.Represents d where
  entities := h.entities_eq
  children x _ := h.contents x.name
  usedBy x _ := h.used x.name
  usersOf x _ := h.users x.name
  entityCount := by
    rw [Design.entityCount, ← Array.length_toList, h.entities_eq]
  usageCount := h.count
  acyclic := by
    rw [Bool.eq_false_iff, ne_eq, h.hasContainmentCycles_iff hwell.distinct]
    intro hcycle
    rcases hcycle with ⟨e, he, hinside⟩
    exact hwell.acyclic e he hinside

theorem WellFormed.unrefused (h : doc.WellFormed) : doc.Unrefused where
  containments := by
    intro before e after parent hsplit hparent
    obtain ⟨d, hbefore, hshows⟩ := h.declared.shows_place hsplit
    have hmem : e ∈ doc.entities := hsplit ▸ List.mem_append_right before List.mem_cons_self
    obtain ⟨d', hplace, _⟩ := hshows.place fun parent hparent =>
      hsplit ▸ h.containers e hmem parent hparent
    rw [place, hparent] at hplace
    exact ⟨d, d', hbefore, hplace⟩
  usages := by
    intro before u after hsplit
    obtain ⟨placed, hplaced, hshows⟩ :=
      h.declared.shows_place (List.append_nil doc.entities).symm
    have hmem : u ∈ doc.usages := hsplit ▸ List.mem_append_right before List.mem_cons_self
    obtain ⟨hsource, htarget⟩ := h.endpoints u hmem
    obtain ⟨d', hlinked, _⟩ := (h.declared.shows_connect hshows hsplit).addUsage
      (by rwa [List.append_nil]) (by rwa [List.append_nil])
    exact ⟨placed, d', hplaced, hlinked⟩

/-- Where no call is refused there is no warning: all that is logged is that the design is loaded. -/
theorem Unrefused.toDesignLogged_eq (h : doc.Unrefused) {d : Design} (hd : doc.toDesign = .ok d) :
    doc.toDesignLogged = ⟨.ok d, [.loaded doc.name d.entityCount d.usageCount]⟩ := by
  obtain ⟨placed, hplaced, hconnected⟩ := exists_placed (assemble_of_toDesign hd)
  -- by induction on the usages that are left, with those before them linked
  have hsilent : ∀ before after : List Usage, doc.usages = before ++ after →
      (after.foldlM connectLogged (before.foldl connect placed)).events = [] := by
    intro before after
    induction after generalizing before with
    | nil => intro _; rfl
    | cons u after ih =>
        intro hsplit
        obtain ⟨placed', d', hplaced', hlinked⟩ := h.usages before u after hsplit
        obtain rfl := Except.ok.inj (hplaced.symm.trans hplaced')
        have hstep : connectLogged (before.foldl connect placed) u =
            ⟨(before ++ [u]).foldl connect placed, []⟩ := by
          rw [List.foldl_append, List.foldl_cons, List.foldl_nil, connect, connectLogged, hlinked]
          rfl
        rw [List.foldlM_cons, Logged.events_bind, hstep, List.nil_append]
        exact ih (before ++ [u]) (by rw [hsplit, List.append_assoc]; rfl)
  have hevents : (doc.usages.foldlM connectLogged placed).events = [] := hsilent [] doc.usages rfl
  have hlinked : doc.usages.foldlM connectLogged placed = ⟨d, []⟩ := by
    rw [← hconnected, ← hevents, ← value_connectAll]
  rw [toDesignLogged, validate_of_toDesign hd, hplaced]
  simp only [hlinked]
  rfl

/-- A document is loaded exactly if it is valid, otherwise its first defect is reported. A design
that is loaded holds the whole document, and no call was refused on the way. -/
theorem toDesign_represents (doc : Document) :
    ((∃ d, doc.toDesign = .ok d) ↔ doc.validate = .ok ()) ∧
      (∀ defect, doc.validate = .error defect → doc.toDesign = .error defect) ∧
      ∀ d, doc.toDesign = .ok d → doc.Unrefused ∧ doc.Represents d := by
  refine ⟨⟨?_, ?_⟩, fun _ => toDesign_eq_error, ?_⟩
  · intro hloaded
    rcases hloaded with ⟨d, hd⟩
    exact validate_of_toDesign hd
  · intro hvalid
    obtain ⟨d, hd, _⟩ := (WellFormed.of_validate hvalid).shows_toDesign
    exact ⟨d, hd⟩
  · intro d hd
    have hwell := WellFormed.of_validate (validate_of_toDesign hd)
    obtain ⟨d', hd', hshows⟩ := hwell.shows_toDesign
    obtain rfl : d' = d := by simpa [hd'] using hd
    exact ⟨hwell.unrefused, hshows.represents hwell⟩

/-- A member declared before its class, with a repeated usage and one of itself. -/
def memberFirst : Document where
  name := none
  entities := [⟨"m", .method, some "c"⟩, ⟨"c", .classDecl, none⟩]
  usages := [⟨"m", "c"⟩, ⟨"m", "m"⟩, ⟨"m", "c"⟩]

/-- The order of declaration is kept, and the repeated usage counts twice. -/
theorem represents_memberFirst :
    memberFirst.validate = .ok () ∧
      ∃ d, memberFirst.toDesign = .ok d ∧ memberFirst.Unrefused ∧ memberFirst.Represents d := by
  have hvalid : memberFirst.validate = .ok () := by cbv
  obtain ⟨hloaded, _, hholds⟩ := toDesign_represents memberFirst
  obtain ⟨d, hd⟩ := hloaded.2 hvalid
  exact ⟨hvalid, d, hd, hholds d hd⟩

end Document

end DesignCoupling
