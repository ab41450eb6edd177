import DesignCoupling.Proofs.Design.Cycles
import DesignCoupling.Proofs.Design.Growth

/-!
# What is recorded stays

A design only grows. An entity keeps its number, its name and its kind, and a container once it has
one; links are added behind those that are there. So the neighbours of an entity are only ever
extended at the end, and a cycle of containers is never undone. Calls that are refused or repeated
are no exception.
-/

namespace DesignCoupling

/-- An entity at a later time: it may have been put into a container, if it had none. -/
structure Entity.Becomes (e e' : Entity) : Prop where
  name : e'.name = e.name
  kind : e'.kind = e.kind
  parent : ∀ {p}, e.parent = some p → e'.parent = some p

namespace Entity.Becomes

theorem refl (e : Entity) : e.Becomes e := ⟨rfl, rfl, id⟩

theorem trans {a b c : Entity} (hab : a.Becomes b) (hbc : b.Becomes c) : a.Becomes c where
  name := hbc.name.trans hab.name
  kind := hbc.kind.trans hab.kind
  parent h := hbc.parent (hab.parent h)

theorem parent_eq_none {e e' : Entity} (h : e.Becomes e') (hne : e'.parent ≠ e.parent) :
    e.parent = none := by
  cases hparent : e.parent with
  | none => rfl
  | some p => exact absurd ((h.parent hparent).trans hparent.symm) hne

theorem parent_eq_of_ne {e e' e'' : Entity} (h : e.Becomes e') (hne : e'.parent ≠ e.parent)
    (hlater : e'.Becomes e'') : e''.parent = e'.parent := by
  cases hparent : e'.parent with
  | none => exact absurd (hparent.trans (h.parent_eq_none hne).symm) hne
  | some p => exact hlater.parent hparent

end Entity.Becomes

namespace Design

/-- A design at a later time: numbers are kept, and links are added at the end. -/
structure GrowsTo (d d' : Design) : Prop where
  index : ∀ {name i}, d.indexOf? name = some i → d'.indexOf? name = some i
  entities : ∀ {i : Nat} {e : Entity}, d.entities[i]? = some e →
    ∃ e', d'.entities[i]? = some e' ∧ e.Becomes e'
  links : d.links.toList <+: d'.links.toList

variable {d d' : Design}

namespace GrowsTo

theorem refl (d : Design) : d.GrowsTo d where
  index := id
  entities h := ⟨_, h, .refl _⟩
  links := List.prefix_refl _

theorem trans {d'' : Design} (h : d.GrowsTo d') (h' : d'.GrowsTo d'') : d.GrowsTo d'' where
  index hi := h'.index (h.index hi)
  entities he :=
    let ⟨_, he', hbecomes⟩ := h.entities he
    let ⟨e'', he'', hbecomes'⟩ := h'.entities he'
    ⟨e'', he'', hbecomes.trans hbecomes'⟩
  links := h.links.trans h'.links

theorem withEntity {name : String} (hname : d.indexOf? name = none) (kind : EntityKind) :
    d.GrowsTo (d.withEntity name kind) where
  index {n i} hi := by
    have hne : name ≠ n := by
      rintro rfl
      simp [hname] at hi
    rw [indexOf?_withEntity, if_neg hne, hi]
  entities {i e} he := by
    have hlt := (Array.getElem?_eq_some_iff.1 he).1
    refine ⟨e, ?_, .refl e⟩
    rw [getElem?_entities_withEntity, if_neg (Nat.ne_of_lt hlt), he]
  links := List.prefix_refl _

theorem withContainment {c : Nat} (hfree : d.entities[c]?.bind Entity.parent = none) (p : Nat)
    (parent : String) : d.GrowsTo (d.withContainment p c parent) where
  index hi := hi
  entities {i e} he := by
    rw [getElem?_entities_withContainment, he]
    by_cases hci : c = i
    · have htop : e.parent = none := by simpa [hci, he] using hfree
      exact ⟨_, if_pos hci, rfl, rfl, fun h => by simp [htop] at h⟩
    · exact ⟨e, if_neg hci, .refl e⟩
  links := by
    rw [links_withContainment, Array.toList_push]
    exact List.prefix_append _ _

theorem link (d : Design) (kind : LinkKind) (s t : Nat) : d.GrowsTo (d.link kind s t) where
  index hi := hi
  entities he := ⟨_, he, .refl _⟩
  links := by
    rw [links_link, Array.toList_push]
    exact List.prefix_append _ _

theorem of_answers {call : Call} {reply : Reply} (h : Answers d call reply d') : d.GrowsTo d' := by
  cases h with
  | known => exact .refl d
  | declared hname => exact .withEntity hname _
  | refused => exact .refl d
  | held => exact .refl d
  | placed _ _ _ hfree => exact .withContainment hfree _ _
  | ignored => exact .refl d
  | linked => exact .link d _ _ _

end GrowsTo

/-- Every sequence of calls makes a design grow. -/
theorem growsTo_performAll (d : Design) (calls : List Call) : d.GrowsTo (d.performAll calls) := by
  induction calls generalizing d with
  | nil => exact .refl d
  | cons call calls ih => exact (GrowsTo.of_answers (perform_answers d call)).trans (ih _)

namespace GrowsTo

theorem nameAt_eq (h : d.GrowsTo d') {i : Nat} (hi : i < d.entities.size) :
    d'.nameAt i = d.nameAt i := by
  have he : d.entities[i]? = some d.entities[i] := Array.getElem?_eq_getElem hi
  obtain ⟨e', he', hbecomes⟩ := h.entities he
  rw [nameAt, nameAt, he, he', Option.map_some, Option.map_some, hbecomes.name]

private theorem namesAlong_prefix (h : d.GrowsTo d') {near far : Link → Nat}
    (hfar : ∀ l ∈ d.links, far l < d.entities.size) (kind : LinkKind) (name : String) :
    d.namesAlong near far kind name <+: d'.namesAlong near far kind name := by
  unfold namesAlong
  cases hi : d.indexOf? name with
  | none => exact List.nil_prefix
  | some i =>
      obtain ⟨added, hadded⟩ := h.links
      have hold : (d.links.toList.filterMap fun l =>
            if l.kind = kind ∧ near l = i then d'.nameAt (far l) else none) =
          d.links.toList.filterMap fun l =>
            if l.kind = kind ∧ near l = i then d.nameAt (far l) else none := by
        apply List.filterMap_congr
        intro l hl
        rw [h.nameAt_eq (hfar l (Array.mem_toList_iff.1 hl))]
      rw [h.index hi, Option.map_some, Option.map_some, Option.getD_some, Option.getD_some,
        ← hadded, List.filterMap_append, hold]
      exact List.prefix_append _ _

theorem outgoing_prefix (h : d.GrowsTo d') (hd : d.Consistent) (kind : LinkKind) (name : String) :
    d.outgoing kind name <+: d'.outgoing kind name := by
  rw [outgoing_eq_namesAlong, outgoing_eq_namesAlong]
  exact h.namesAlong_prefix (fun l hl => (hd.bounds l hl).2) kind name

theorem incoming_prefix (h : d.GrowsTo d') (hd : d.Consistent) (kind : LinkKind) (name : String) :
    d.incoming kind name <+: d'.incoming kind name := by
  rw [incoming_eq_namesAlong, incoming_eq_namesAlong]
  exact h.namesAlong_prefix (fun l hl => (hd.bounds l hl).1) kind name

theorem size_le (h : d.GrowsTo d') : d.entities.size ≤ d'.entities.size := by
  by_contra hlt
  have he : d.entities[d'.entities.size]? = some d.entities[d'.entities.size] :=
    Array.getElem?_eq_getElem (Nat.lt_of_not_le hlt)
  obtain ⟨e', he', _⟩ := h.entities he
  exact Nat.lt_irrefl _ (Array.getElem?_eq_some_iff.1 he').1

theorem contained_mono (h : d.GrowsTo d') {i j : Nat} (hj : j ∈ d.contained i) :
    j ∈ d'.contained i := by
  obtain ⟨l, hl, hlink⟩ := mem_contained.1 hj
  have hmem : l ∈ d'.links :=
    Array.mem_toList_iff.1 (h.links.subset (Array.mem_toList_iff.2 hl))
  exact mem_contained.2 ⟨l, hmem, hlink⟩

theorem hasContainmentCycles (h : d.GrowsTo d') (hd : d.Consistent) (hd' : d'.Consistent)
    (hcycles : d.hasContainmentCycles = true) : d'.hasContainmentCycles = true := by
  obtain ⟨i, hi, hcycle⟩ := hd.hasContainmentCycles_iff_contained.1 hcycles
  refine hd'.hasContainmentCycles_iff_contained.2 ⟨i, Nat.lt_of_lt_of_le hi h.size_le, ?_⟩
  exact Relation.TransGen.mono (fun _ _ => h.contained_mono) i i hcycle

end GrowsTo

theorem addEntity_of_indexOf? {name : String} {i : Nat} (h : d.indexOf? name = some i)
    (kind : EntityKind) : d.addEntity name kind = (i, d) := by
  rw [addEntity, h]

/-- Whatever calls follow those that built a design: names keep their numbers, also when they are
added again with another kind; entities keep name, kind and container, which changes at most once
and only from none; the neighbours of every entity are extended at the end; and a cycle of
containers stays. -/
theorem growth_ofCalls (calls more : List Call) {d d' : Design} (hd : ofCalls calls = d)
    (hd' : d.performAll more = d') :
    (∀ name i, d.indexOf? name = some i →
      d'.indexOf? name = some i ∧ ∀ kind, d'.addEntity name kind = (i, d')) ∧
    (∀ (i : Nat) (e : Entity), d.entities[i]? = some e → ∃ e', d'.entities[i]? = some e' ∧
      e'.name = e.name ∧ e'.kind = e.kind ∧ (∀ p, e.parent = some p → e'.parent = some p) ∧
      (e'.parent ≠ e.parent → e.parent = none ∧ ∀ later, ∃ e'',
        (d'.performAll later).entities[i]? = some e'' ∧ e''.parent = e'.parent)) ∧
    (∀ x, (d.provider.children x).map Entity.name <+: (d'.provider.children x).map Entity.name) ∧
    (∀ x, (d.provider.usedBy x).map Entity.name <+: (d'.provider.usedBy x).map Entity.name) ∧
    (∀ x, (d.provider.usersOf x).map Entity.name <+: (d'.provider.usersOf x).map Entity.name) ∧
    (d.hasContainmentCycles = true → d'.hasContainmentCycles = true) := by
  have hgrows : d.GrowsTo d' := hd' ▸ growsTo_performAll d more
  have hconsistent : d.Consistent := hd ▸ Consistent.ofCalls calls
  have hconsistent' : d'.Consistent := hd' ▸ hconsistent.performAll more
  refine ⟨fun name i hi => ⟨hgrows.index hi, addEntity_of_indexOf? (hgrows.index hi)⟩, ?_,
    fun x => hgrows.outgoing_prefix hconsistent .contains x.name,
    fun x => hgrows.outgoing_prefix hconsistent .uses x.name,
    fun x => hgrows.incoming_prefix hconsistent .uses x.name,
    hgrows.hasContainmentCycles hconsistent hconsistent'⟩
  intro i e he
  obtain ⟨e', he', hbecomes⟩ := hgrows.entities he
  refine ⟨e', he', hbecomes.name, hbecomes.kind, fun p => hbecomes.parent, fun hne => ?_⟩
  refine ⟨hbecomes.parent_eq_none hne, fun later => ?_⟩
  obtain ⟨e'', he'', hbecomes'⟩ := (growsTo_performAll d' later).entities he'
  exact ⟨e'', he'', hbecomes.parent_eq_of_ne hne hbecomes'⟩

/-- Two packages that contain each other, and a method that uses one of them. -/
def earlyCalls : List Call :=
  [.addEntity "a" .package, .addEntity "b" .package, .addContainment "a" "b",
    .addContainment "b" "a", .addEntity "m" .method, .addUsage "m" "a"]

/-- The first package is added as a class and put into the method, and the method is put into it. -/
def lateCalls : List Call :=
  [.addEntity "a" .classDecl, .addContainment "m" "a", .addContainment "a" "m", .addUsage "m" "b",
    .addUsage "x" "m"]

/-- The package stays a package, where it was and with the child that it had, and the circle stays;
the method gets a container, and has the same one for good. -/
theorem growth_earlyCalls :
    ∃ d d' a m m', ofCalls earlyCalls = d ∧ d.performAll lateCalls = d' ∧
      d.entities[0]? = some a ∧ d'.indexOf? "a" = some 0 ∧
      (∃ a', d'.entities[0]? = some a' ∧ a'.kind = .package ∧ a'.parent = some "b") ∧
      d.entities[2]? = some m ∧ m.parent = none ∧
      d'.entities[2]? = some m' ∧ m'.parent = some "a" ∧
      (∀ later, ∃ m'', (d'.performAll later).entities[2]? = some m'' ∧ m''.parent = some "a") ∧
      ["b"] <+: (d'.provider.children a).map Entity.name ∧
      ["a"] <+: (d'.provider.usedBy m).map Entity.name ∧ d'.hasContainmentCycles = true := by
  let a : Entity := ⟨"a", .package, some "b"⟩
  let m : Entity := ⟨"m", .method, none⟩
  let m' : Entity := ⟨"m", .method, some "a"⟩
  have hchild : ((ofCalls earlyCalls).provider.children a).map Entity.name = ["b"] := by cbv
  have huse : ((ofCalls earlyCalls).provider.usedBy m).map Entity.name = ["a"] := by cbv
  have hcircle : (ofCalls earlyCalls).hasContainmentCycles = true := by cbv
  obtain ⟨hnumbers, hentities, hchildren, hused, _, hcycles⟩ :=
    growth_ofCalls earlyCalls lateCalls rfl rfl
  obtain ⟨a', ha', _, hkind, hparent, _⟩ := hentities 0 a rfl
  obtain ⟨r, hr, _, _, _, hchanged⟩ := hentities 2 m rfl
  obtain rfl : r = m' := Option.some.inj (hr.symm.trans rfl)
  obtain ⟨htop, hlater⟩ := hchanged (by decide)
  exact ⟨_, _, a, m, m', rfl, rfl, rfl, (hnumbers "a" 0 rfl).1, ⟨a', ha', hkind, hparent "b" rfl⟩,
    rfl, htop, hr, rfl, hlater, hchild ▸ hchildren a, huse ▸ hused m, hcycles hcircle⟩

end Design

end DesignCoupling
