import DesignCoupling.Proofs.Design.Growth
import Mathlib.Data.List.Nodup

/-!
# One containment, three views

That an entity stands in a container is stored as a link between numbers and as a name kept by the
entity, and the index leads from names to numbers. Whatever calls a design has answered, the three
agree: an entity names a container exactly if one containment link ends at it, and that link starts
at the container. So children and containers are read off either view, and the children of
different entities are kept apart.
-/

namespace DesignCoupling.Design

/-- The containment links that end at the entity with number `i`, in order. -/
def linksInto (d : Design) (i : Nat) : List Link :=
  d.links.toList.filter fun l => l.kind = .contains ∧ l.target = i

/-- Index, entities and links say the same. -/
structure ViewsAgree (d : Design) : Prop where
  index : ∀ name i, d.indexOf? name = some i ↔ ∃ e, d.entities[i]? = some e ∧ e.name = name
  distinct : (d.entities.toList.map Entity.name).Nodup
  ends : ∀ l ∈ d.links, l.source < d.entities.size ∧ l.target < d.entities.size
  loopless : ∀ l ∈ d.links, l.kind = .contains → l.source ≠ l.target
  held : ∀ i e, d.entities[i]? = some e → ∀ p,
    e.parent = some p ↔ ∃ l, d.linksInto i = [l] ∧ d.nameAt l.source = some p
  top : ∀ i e, d.entities[i]? = some e → (e.parent = none ↔ d.linksInto i = [])

variable {d : Design}

theorem mem_linksInto {i : Nat} {l : Link} :
    l ∈ d.linksInto i ↔ l ∈ d.links ∧ l.kind = .contains ∧ l.target = i := by
  simp only [linksInto, List.mem_filter, Array.mem_toList_iff, decide_eq_true_eq]

private theorem map_some_filterMap_ite {p : Link → Prop} [DecidablePred p]
    {g : Link → Option String} {ls : List Link} (h : ∀ l ∈ ls, ∃ name, g l = some name) :
    (ls.filterMap fun l => if p l then g l else none).map some =
      (ls.filter fun l => decide (p l)).map g := by
  induction ls with
  | nil => rfl
  | cons l ls ih =>
      obtain ⟨name, hname⟩ := h l List.mem_cons_self
      have hrest := ih fun r hr => h r (List.mem_cons_of_mem l hr)
      by_cases hl : p l
      · simp [hl, hname, hrest]
      · simp [hl, hrest]

namespace Consistent

theorem map_nameAt_linksInto (hd : d.Consistent) {i : Nat} {e : Entity}
    (he : d.entities[i]? = some e) :
    (d.linksInto i).map (fun l => d.nameAt l.source) = e.parent.toList.map some := by
  rw [← hd.containers e (Array.mem_of_getElem? he), incoming_eq_namesAlong, namesAlong,
    hd.indexOf?_getElem? he, Option.map_some, Option.getD_some, map_some_filterMap_ite]
  · rfl
  · intro l hl
    have hlt := (hd.bounds l (Array.mem_toList_iff.1 hl)).1
    exact ⟨d.entities[l.source].name, by rw [nameAt, Array.getElem?_eq_getElem hlt]; rfl⟩

theorem parent_eq_some_iff (hd : d.Consistent) {i : Nat} {e : Entity}
    (he : d.entities[i]? = some e) {p : String} :
    e.parent = some p ↔ ∃ l, d.linksInto i = [l] ∧ d.nameAt l.source = some p := by
  have hstarts := hd.map_nameAt_linksInto he
  rw [← List.map_eq_singleton_iff, hstarts]
  cases e.parent <;> simp

theorem parent_eq_none_iff (hd : d.Consistent) {i : Nat} {e : Entity}
    (he : d.entities[i]? = some e) : e.parent = none ↔ d.linksInto i = [] := by
  have hstarts := hd.map_nameAt_linksInto he
  rw [← List.map_eq_nil_iff (f := fun l => d.nameAt l.source), hstarts]
  cases e.parent <;> simp

theorem viewsAgree (hd : d.Consistent) : d.ViewsAgree where
  index _ _ := hd.index
  distinct := hd.nodup_names
  ends := hd.bounds
  loopless := hd.separate
  held _ _ he _ := hd.parent_eq_some_iff he
  top _ _ he := hd.parent_eq_none_iff he

theorem length_linksInto_le (hd : d.Consistent) (i : Nat) : (d.linksInto i).length ≤ 1 := by
  by_cases hi : i < d.entities.size
  · have hstarts := hd.map_nameAt_linksInto (Array.getElem?_eq_getElem hi)
    have hlength := congrArg List.length hstarts
    rw [List.length_map, List.length_map] at hlength
    rw [hlength]
    cases d.entities[i].parent <;> simp
  · have hnone : d.linksInto i = [] := by
      rw [List.eq_nil_iff_forall_not_mem]
      intro l hl
      obtain ⟨hmem, _, rfl⟩ := mem_linksInto.1 hl
      exact hi (hd.bounds l hmem).2
    simp [hnone]

theorem pairwise_targets (hd : d.Consistent) :
    d.links.toList.Pairwise fun l r =>
      l.kind = .contains → r.kind = .contains → l.target ≠ r.target := by
  rw [List.pairwise_iff_forall_sublist]
  intro l r hsub hl hr htarget
  have hboth : [l, r].Sublist (d.linksInto r.target) := by
    have hfilter := hsub.filter fun s => decide (s.kind = .contains ∧ s.target = r.target)
    simpa [linksInto, hl, hr, htarget] using hfilter
  have htwo : [l, r].length ≤ 1 := Nat.le_trans hboth.length_le (hd.length_linksInto_le r.target)
  simp at htwo

theorem nodup_children (hd : d.Consistent) (p : Entity) : (d.provider.children p).Nodup := by
  change (d.neighbours (d.targets .contains) p.name).Nodup
  unfold neighbours
  cases d.indexOf? p.name with
  | none => simp
  | some i =>
      rw [Option.map_some, Option.getD_some, targets, List.Nodup, List.pairwise_filterMap]
      refine hd.pairwise_targets.imp ?_
      intro l r hends c hc c' hc' hsame
      obtain ⟨⟨hl, _⟩, htarget⟩ := Option.ite_none_right_eq_some.1 hc
      obtain ⟨⟨hr, _⟩, htarget'⟩ := Option.ite_none_right_eq_some.1 hc'
      subst hsame
      exact hends hl hr (hd.getElem?_inj htarget htarget')

theorem disjoint_children (hd : d.Consistent) {p q : Entity} (hp : p ∈ d.entities)
    (hq : q ∈ d.entities) (hne : p ≠ q) :
    (d.provider.children p).Disjoint (d.provider.children q) := by
  intro c hcp hcq
  have hparent := ((hd.mem_children_iff hp).1 hcp).2
  have hparent' := ((hd.mem_children_iff hq).1 hcq).2
  exact hne (hd.eq_of_name_eq hp hq (Option.some.inj (hparent.symm.trans hparent')))

end Consistent

/-- After any calls, answered or refused, the views of a design agree. So the children of an entity
are those that name it, each once, and different entities have no child in common. -/
theorem viewsAgree_ofCalls (calls : List Call) :
    (ofCalls calls).ViewsAgree ∧
      ∀ p ∈ (ofCalls calls).entities,
        (∀ c ∈ (ofCalls calls).entities,
          c ∈ (ofCalls calls).provider.children p ↔ c.parent = some p.name) ∧
        ((ofCalls calls).provider.children p).Nodup ∧
        ∀ q ∈ (ofCalls calls).entities, p ≠ q →
          ((ofCalls calls).provider.children p).Disjoint
            ((ofCalls calls).provider.children q) := by
  have hd := Consistent.ofCalls calls
  refine ⟨hd.viewsAgree, fun p hp => ⟨fun c hc => ?_, hd.nodup_children p, ?_⟩⟩
  · rw [hd.mem_children_iff hp, and_iff_right hc]
  · exact fun q hq hne => hd.disjoint_children hp hq hne

/-- A class is put into one package; another package, the class itself, the package again and a
name that is not known change nothing after that. -/
def contestedCalls : List Call :=
  [.addEntity "p" .package, .addEntity "q" .package, .addEntity "c" .classDecl,
    .addContainment "p" "c", .addContainment "q" "c", .addContainment "c" "c",
    .addContainment "p" "c", .addUsage "c" "x", .addUsage "c" "q", .addEntity "c" .method]

/-- The class names the first package, where its one containment link starts. -/
theorem viewsAgree_contestedCalls :
    ∃ p q c, (ofCalls contestedCalls).entities = #[p, q, c] ∧
      (ofCalls contestedCalls).ViewsAgree ∧
      (ofCalls contestedCalls).linksInto 2 = [⟨.contains, 0, 2⟩] ∧
      c ∈ (ofCalls contestedCalls).provider.children p ∧
      ((ofCalls contestedCalls).provider.children p).Nodup ∧
      ((ofCalls contestedCalls).provider.children p).Disjoint
        ((ofCalls contestedCalls).provider.children q) := by
  let p : Entity := ⟨"p", .package, none⟩
  let q : Entity := ⟨"q", .package, none⟩
  let c : Entity := ⟨"c", .classDecl, some "p"⟩
  have hentities : (ofCalls contestedCalls).entities = #[p, q, c] := rfl
  have hlinks : (ofCalls contestedCalls).linksInto 2 = [⟨.contains, 0, 2⟩] := rfl
  have hp : p ∈ (ofCalls contestedCalls).entities := by rw [hentities]; simp
  have hq : q ∈ (ofCalls contestedCalls).entities := by rw [hentities]; simp
  have hc : c ∈ (ofCalls contestedCalls).entities := by rw [hentities]; simp
  obtain ⟨hviews, hchildren⟩ := viewsAgree_ofCalls contestedCalls
  obtain ⟨hnamed, hnodup, hapart⟩ := hchildren p hp
  exact ⟨p, q, c, hentities, hviews, hlinks, (hnamed c hc).2 rfl, hnodup,
    hapart q hq (by decide)⟩

end DesignCoupling.Design
