import DesignCoupling.Design
import DesignCoupling.Proofs.Containment

/-!
# Consistent designs

A design stores the same facts more than once: names stand in the entities and in the index, and a
containment is a link as well as a name kept by the entity inside. In a consistent design these
agree. Neighbours are then determined by names.
-/

namespace DesignCoupling.Design

open Containment

/-- The names that links of one kind lead to from a name, in the order of the links. -/
def outgoing (d : Design) (kind : LinkKind) (name : String) : List String :=
  (d.neighbours (d.targets kind) name).map Entity.name

/-- The names from which links of one kind lead to a name, in the order of the links. -/
def incoming (d : Design) (kind : LinkKind) (name : String) : List String :=
  (d.neighbours (d.sources kind) name).map Entity.name

/-- A link of a kind leads from one entity to another. -/
def Leads (d : Design) (kind : LinkKind) (a b : Entity) : Prop :=
  ∃ l ∈ d.links, l.kind = kind ∧ d.entities[l.source]? = some a ∧ d.entities[l.target]? = some b

/-- The index knows exactly the names of the entities, links join entities, and an entity names as
its container where its one containment comes from. -/
structure Consistent (d : Design) : Prop where
  index : ∀ {name i}, d.indexOf? name = some i ↔ ∃ e, d.entities[i]? = some e ∧ e.name = name
  bounds : ∀ l ∈ d.links, l.source < d.entities.size ∧ l.target < d.entities.size
  containers : ∀ e ∈ d.entities, d.incoming .contains e.name = e.parent.toList
  separate : ∀ l ∈ d.links, l.kind = .contains → l.source ≠ l.target

variable {d : Design}

theorem mem_targets {kind : LinkKind} {i : Nat} {e : Entity} :
    e ∈ d.targets kind i ↔
      ∃ l ∈ d.links, l.kind = kind ∧ l.source = i ∧ d.entities[l.target]? = some e := by
  simp only [targets, List.mem_filterMap, Array.mem_toList_iff, Option.ite_none_right_eq_some,
    and_assoc]

theorem mem_sources {kind : LinkKind} {i : Nat} {e : Entity} :
    e ∈ d.sources kind i ↔
      ∃ l ∈ d.links, l.kind = kind ∧ l.target = i ∧ d.entities[l.source]? = some e := by
  simp only [sources, List.mem_filterMap, Array.mem_toList_iff, Option.ite_none_right_eq_some,
    and_assoc]

theorem mem_of_sources {kind : LinkKind} {i : Nat} {e : Entity} (h : e ∈ d.sources kind i) :
    e ∈ d.entities.toList := by
  obtain ⟨l, _, _, _, he⟩ := mem_sources.1 h
  exact Array.mem_toList_iff.2 (Array.mem_of_getElem? he)

theorem mem_of_usedBy {x e : Entity} (h : e ∈ d.provider.usedBy x) : e ∈ d.entities := by
  obtain ⟨_, _, he⟩ := mem_of_neighbours h
  exact Array.mem_toList_iff.1 (mem_of_targets he)

theorem mem_of_usersOf {x e : Entity} (h : e ∈ d.provider.usersOf x) : e ∈ d.entities := by
  obtain ⟨_, _, he⟩ := mem_of_neighbours h
  exact Array.mem_toList_iff.1 (mem_of_sources he)

theorem Leads.source_mem {kind : LinkKind} {a b : Entity} (h : d.Leads kind a b) :
    a ∈ d.entities := by
  obtain ⟨l, _, _, ha, _⟩ := h
  exact Array.mem_of_getElem? ha

theorem Leads.target_mem {kind : LinkKind} {a b : Entity} (h : d.Leads kind a b) :
    b ∈ d.entities := by
  obtain ⟨l, _, _, _, hb⟩ := h
  exact Array.mem_of_getElem? hb

theorem neighbours_of_indexOf? {side : Nat → List Entity} {name : String} {i : Nat}
    (h : d.indexOf? name = some i) : d.neighbours side name = side i := by
  simp [neighbours, h]

namespace Consistent

theorem get?_eq_some_iff (hd : d.Consistent) {name : String} {e : Entity} :
    d.get? name = some e ↔ e ∈ d.entities ∧ e.name = name := by
  unfold get?
  rw [Option.bind_eq_some_iff, Array.mem_iff_getElem?]
  constructor
  · intro h
    rcases h with ⟨i, hi, he⟩
    obtain ⟨r, hr, hname⟩ := hd.index.1 hi
    obtain rfl := Option.some.inj (he.symm.trans hr)
    exact ⟨⟨i, he⟩, hname⟩
  · intro h
    rcases h with ⟨⟨i, he⟩, hname⟩
    exact ⟨i, hd.index.2 ⟨e, he, hname⟩, he⟩

theorem eq_of_name_eq (hd : d.Consistent) {a b : Entity} (ha : a ∈ d.entities)
    (hb : b ∈ d.entities) (hname : a.name = b.name) : a = b :=
  Option.some.inj ((hd.get?_eq_some_iff.2 ⟨ha, hname⟩).symm.trans (hd.get?_eq_some_iff.2 ⟨hb, rfl⟩))

theorem filterMap_get?_names (hd : d.Consistent) {es : List Entity}
    (hes : ∀ e ∈ es, e ∈ d.entities) : (es.map Entity.name).filterMap d.get? = es := by
  induction es with
  | nil => rfl
  | cons e es ih =>
      have hfound : d.get? e.name = some e :=
        hd.get?_eq_some_iff.2 ⟨hes e List.mem_cons_self, rfl⟩
      rw [List.map_cons, List.filterMap_cons_some hfound,
        ih fun r hr => hes r (List.mem_cons_of_mem e hr)]

theorem indexOf?_getElem? (hd : d.Consistent) {i : Nat} {e : Entity}
    (h : d.entities[i]? = some e) : d.indexOf? e.name = some i :=
  hd.index.2 ⟨e, h, rfl⟩

theorem exists_indexOf?_iff (hd : d.Consistent) {name : String} :
    (∃ i, d.indexOf? name = some i) ↔ name ∈ d.entities.toList.map Entity.name := by
  simp only [hd.index, List.mem_map, Array.mem_toList_iff, Array.mem_iff_getElem?]
  constructor
  · intro h
    rcases h with ⟨i, e, he, hname⟩
    exact ⟨e, ⟨i, he⟩, hname⟩
  · intro h
    rcases h with ⟨e, ⟨i, he⟩, hname⟩
    exact ⟨i, e, he, hname⟩

theorem getElem?_inj (hd : d.Consistent) {i j : Nat} {e : Entity} (hi : d.entities[i]? = some e)
    (hj : d.entities[j]? = some e) : i = j :=
  Option.some.inj ((hd.indexOf?_getElem? hi).symm.trans (hd.indexOf?_getElem? hj))

theorem nodup_names (hd : d.Consistent) : (d.entities.toList.map Entity.name).Nodup := by
  rw [List.Nodup, List.pairwise_iff_getElem]
  intro i j hi hj hij hname
  have hat : ∀ k (hk : k < (d.entities.toList.map Entity.name).length),
      d.indexOf? (d.entities.toList.map Entity.name)[k] = some k := by
    intro k hk
    have hlt : k < d.entities.size := by simpa using hk
    exact hd.index.2 ⟨d.entities[k], Array.getElem?_eq_getElem hlt, by simp⟩
  have hsame : some i = some j := by rw [← hat i hi, ← hat j hj, hname]
  exact Nat.ne_of_lt hij (Option.some.inj hsame)

theorem container_eq_some_iff (hd : d.Consistent) {a b : Entity} :
    container d.get? a = some b ↔ b ∈ d.entities ∧ a.parent = some b.name := by
  rw [Containment.container_eq_some_iff]
  constructor
  · intro h
    rcases h with ⟨name, hparent, hget⟩
    obtain ⟨hb, rfl⟩ := hd.get?_eq_some_iff.1 hget
    exact ⟨hb, hparent⟩
  · intro h
    rcases h with ⟨hb, hparent⟩
    exact ⟨b.name, hparent, hd.get?_eq_some_iff.2 ⟨hb, rfl⟩⟩

theorem mem_neighbours_targets (hd : d.Consistent) {kind : LinkKind} {a b : Entity}
    (ha : a ∈ d.entities) : b ∈ d.neighbours (d.targets kind) a.name ↔ d.Leads kind a b := by
  obtain ⟨i, hi⟩ := Array.mem_iff_getElem?.1 ha
  rw [neighbours_of_indexOf? (hd.indexOf?_getElem? hi), mem_targets]
  constructor
  · intro h
    rcases h with ⟨l, hl, hkind, rfl, hb⟩
    exact ⟨l, hl, hkind, hi, hb⟩
  · intro h
    rcases h with ⟨l, hl, hkind, hsource, htarget⟩
    exact ⟨l, hl, hkind, hd.getElem?_inj hsource hi, htarget⟩

theorem mem_neighbours_sources (hd : d.Consistent) {kind : LinkKind} {a b : Entity}
    (hb : b ∈ d.entities) : a ∈ d.neighbours (d.sources kind) b.name ↔ d.Leads kind a b := by
  obtain ⟨j, hj⟩ := Array.mem_iff_getElem?.1 hb
  rw [neighbours_of_indexOf? (hd.indexOf?_getElem? hj), mem_sources]
  constructor
  · intro h
    rcases h with ⟨l, hl, hkind, rfl, ha⟩
    exact ⟨l, hl, hkind, ha, hj⟩
  · intro h
    rcases h with ⟨l, hl, hkind, hsource, htarget⟩
    exact ⟨l, hl, hkind, hd.getElem?_inj htarget hj, hsource⟩

private theorem name_mem_neighbours_iff (hd : d.Consistent) {side : Nat → List Entity}
    (hside : ∀ {i e}, e ∈ side i → e ∈ d.entities.toList) {name : String} {b : Entity}
    (hb : b ∈ d.entities) :
    b.name ∈ (d.neighbours side name).map Entity.name ↔ b ∈ d.neighbours side name := by
  constructor
  · intro h
    obtain ⟨e, he, hname⟩ := List.mem_map.1 h
    obtain ⟨i, _, hi⟩ := mem_of_neighbours he
    obtain rfl := hd.eq_of_name_eq (Array.mem_toList_iff.1 (hside hi)) hb hname
    exact he
  · exact List.mem_map_of_mem

theorem name_mem_outgoing_iff (hd : d.Consistent) {kind : LinkKind} {name : String} {b : Entity}
    (hb : b ∈ d.entities) :
    b.name ∈ d.outgoing kind name ↔ b ∈ d.neighbours (d.targets kind) name :=
  hd.name_mem_neighbours_iff mem_of_targets hb

theorem name_mem_incoming_iff (hd : d.Consistent) {kind : LinkKind} {name : String} {a : Entity}
    (ha : a ∈ d.entities) :
    a.name ∈ d.incoming kind name ↔ a ∈ d.neighbours (d.sources kind) name :=
  hd.name_mem_neighbours_iff mem_of_sources ha

/-- The children of an entity are the entities that name it as their container. -/
theorem mem_children_iff (hd : d.Consistent) {p c : Entity} (hp : p ∈ d.entities) :
    c ∈ d.provider.children p ↔ c ∈ d.entities ∧ c.parent = some p.name := by
  have hnamed : ∀ {c : Entity}, c ∈ d.entities →
      (d.Leads .contains p c ↔ c.parent = some p.name) := by
    intro c hc
    rw [← hd.mem_neighbours_sources hc, ← hd.name_mem_incoming_iff hp, hd.containers c hc,
      Option.mem_toList]
  change c ∈ d.neighbours (d.targets .contains) p.name ↔ _
  rw [hd.mem_neighbours_targets hp]
  constructor
  · intro hleads
    have hc := hleads.target_mem
    exact ⟨hc, (hnamed hc).1 hleads⟩
  · intro h
    rcases h with ⟨hc, hparent⟩
    exact (hnamed hc).2 hparent

theorem mem_children_iff_container (hd : d.Consistent) {p c : Entity} (hp : p ∈ d.entities) :
    c ∈ d.provider.children p ↔ c ∈ d.entities ∧ container d.get? c = some p := by
  rw [hd.mem_children_iff hp, hd.container_eq_some_iff]
  simp only [hp, true_and]

theorem transGen_children_iff (hd : d.Consistent) {e m : Entity} (he : e ∈ d.entities) :
    Relation.TransGen (fun a b => b ∈ d.provider.children a) e m ↔
      m ∈ d.entities ∧ Inside d.get? m e := by
  constructor
  · intro h
    induction h with
    | single hc =>
        obtain ⟨hm, hup⟩ := (hd.mem_children_iff_container he).1 hc
        exact ⟨hm, .single hup⟩
    | tail _ hc ih =>
        obtain ⟨hm, hup⟩ := (hd.mem_children_iff_container ih.1).1 hc
        exact ⟨hm, .head hup ih.2⟩
  · intro hbelow
    rcases hbelow with ⟨hm, h⟩
    induction h using Relation.TransGen.head_induction_on with
    | single hup => exact .single ((hd.mem_children_iff_container he).2 ⟨hm, hup⟩)
    | head hup _ ih =>
        have hr := (hd.container_eq_some_iff.1 hup).1
        exact .tail (ih hr) ((hd.mem_children_iff_container hr).2 ⟨hm, hup⟩)

end Consistent

end DesignCoupling.Design
