import DesignCoupling.Proofs.Coupling.Aggregation
import DesignCoupling.Proofs.Coupling.Units
import DesignCoupling.Proofs.Design.Growth

/-!
# The graph of units

Usages join entities. When every entity is merged with its unit, the usages join units instead, and
the direct set of a unit is its neighbourhood in this smaller graph. The members of a class are
looked for downwards, through children, while their unit is found upwards, by container names; in a
consistent design the two agree, also where containers run in a circle.
-/

namespace DesignCoupling.Design

open Containment

variable {d : Design}

/-- A usage joins two entities, whichever of them uses the other. -/
def Joined (d : Design) (u v : Entity) : Prop := d.Leads .uses u v ∨ d.Leads .uses v u

theorem Joined.symm {u v : Entity} (h : d.Joined u v) : d.Joined v u := Or.symm h

theorem Joined.mem {u v : Entity} (h : d.Joined u v) : u ∈ d.entities := by
  rcases h with h | h
  · exact h.source_mem
  · exact h.target_mem

namespace Consistent

theorem mem_endpoints_iff (hd : d.Consistent) {u y : Entity} (hu : u ∈ d.entities) :
    y ∈ d.provider.endpoints u ↔ ∃ v, d.Joined u v ∧ d.provider.unit v = y := by
  have hused : ∀ v, v ∈ d.provider.usedBy u ↔ d.Leads .uses u v :=
    fun v => hd.mem_neighbours_targets hu
  have husers : ∀ v, v ∈ d.provider.usersOf u ↔ d.Leads .uses v u :=
    fun v => hd.mem_neighbours_sources hu
  simp only [Provider.mem_endpoints, hused, husers, Joined]

theorem mem_members_iff (hd : d.Consistent) {x u : Entity} (hx : x ∈ d.entities)
    (hu : u ∈ d.entities) :
    u ∈ d.provider.members x ↔ d.provider.enclosingClass u = some x := by
  rw [Provider.mem_members]
  constructor
  · intro h
    rcases h with ⟨_, _, hclass⟩
    exact hclass
  · intro hclass
    have hnearest := (Provider.enclosingClass_eq_some_iff.1 hclass).2
    refine ⟨hnearest.kind_eq, Provider.mem_descendants_iff.2 ⟨?_, ?_⟩, hclass⟩
    · intro heq
      subst heq
      rw [Provider.enclosingClass_of_class hnearest.kind_eq] at hclass
      simp at hclass
    · exact (hd.transGen_children_iff hx).2 ⟨hu, hnearest.inside⟩

theorem merged_iff (hd : d.Consistent) {e u : Entity} (he : e ∈ d.entities)
    (hu : u ∈ d.entities) :
    (u = e ∨ u ∈ d.provider.members e) ↔ e = u ∨ e = d.provider.unit u := by
  rw [hd.mem_members_iff he hu, eq_comm]
  unfold Provider.unit
  cases d.provider.enclosingClass u with
  | none => simp
  | some c => simp [eq_comm]

/-- The direct set of an entity: the units at the far ends of the usages of all that it merges. -/
theorem mem_directRelated_iff (hd : d.Consistent) {e x : Entity} (he : e ∈ d.entities) :
    x ∈ d.provider.directRelated e ↔
      (∃ u v, d.Joined u v ∧ (e = u ∨ e = d.provider.unit u) ∧ d.provider.unit v = x) ∧
        x ≠ e ∧ some x ≠ d.provider.enclosingClass e := by
  rw [Provider.mem_directRelated]
  apply and_congr_left
  intro _
  constructor
  · intro h
    rcases h with ⟨u, hmerged, hendpoint⟩
    have hu : u ∈ d.entities := by
      rcases hmerged with rfl | hmember
      · exact he
      · have hdescendant := ((d.provider.mem_members).1 hmember).2.1
        exact Array.mem_toList_iff.1 (d.provider.mem_descendants hdescendant).1
    obtain ⟨v, hjoined, hv⟩ := (hd.mem_endpoints_iff hu).1 hendpoint
    exact ⟨u, v, hjoined, (hd.merged_iff he hu).1 hmerged, hv⟩
  · intro h
    rcases h with ⟨u, v, hjoined, hmerged, hv⟩
    have hu := hjoined.mem
    exact ⟨u, (hd.merged_iff he hu).2 hmerged, (hd.mem_endpoints_iff hu).2 ⟨v, hjoined, hv⟩⟩

theorem mem_directRelated_of_unit (hd : d.Consistent) {x y : Entity} (hx : x ∈ d.entities)
    (hunit : d.provider.enclosingClass x = none) :
    y ∈ d.provider.directRelated x ↔
      (∃ u v, d.Joined u v ∧ d.provider.unit u = x ∧ d.provider.unit v = y) ∧ y ≠ x := by
  have hself : d.provider.unit x = x := by rw [Provider.unit, hunit, Option.getD_none]
  have hmerged : ∀ u, x = u ∨ x = d.provider.unit u ↔ d.provider.unit u = x := by
    intro u
    constructor
    · intro h
      rcases h with rfl | h
      · exact hself
      · exact h.symm
    · exact fun h => .inr h.symm
  rw [hd.mem_directRelated_iff hx, hunit, and_iff_left (Option.some_ne_none y)]
  simp only [hmerged]

theorem mem_directRelated_of_member (hd : d.Consistent) {x c y : Entity} (hx : x ∈ d.entities)
    (hclass : d.provider.enclosingClass x = some c) :
    y ∈ d.provider.directRelated x ↔ (∃ v, d.Joined x v ∧ d.provider.unit v = y) ∧ y ≠ c := by
  have hunit : ∀ v, d.provider.unit v ≠ x := by
    rintro v rfl
    simp at hclass
  have hmerged : ∀ u, x = u ∨ x = d.provider.unit u ↔ x = u :=
    fun u => or_iff_left fun h => hunit u h.symm
  rw [hd.mem_directRelated_iff hx, hclass]
  simp only [hmerged]
  constructor
  · intro h
    rcases h with ⟨⟨u, v, hjoined, rfl, hv⟩, _, hne⟩
    exact ⟨⟨v, hjoined, hv⟩, fun h => hne (congrArg some h)⟩
  · intro h
    rcases h with ⟨⟨v, hjoined, hv⟩, hne⟩
    exact ⟨⟨x, v, hjoined, rfl, hv⟩, fun h => hunit v (hv.trans h), fun h => hne (Option.some.inj h)⟩

theorem directRelated_symm (hd : d.Consistent) {a b : Entity} (ha : a ∈ d.entities)
    (hb : b ∈ d.entities) (haunit : d.provider.enclosingClass a = none)
    (hbunit : d.provider.enclosingClass b = none) (h : b ∈ d.provider.directRelated a) :
    a ∈ d.provider.directRelated b := by
  obtain ⟨⟨u, v, hjoined, hu, hv⟩, hne⟩ := (hd.mem_directRelated_of_unit ha haunit).1 h
  exact (hd.mem_directRelated_of_unit hb hbunit).2 ⟨⟨v, u, hjoined.symm, hv, hu⟩, hne.symm⟩

theorem mem_descendants_iff (hd : d.Consistent) {e m : Entity} (he : e ∈ d.entities) :
    m ∈ d.provider.descendants e ↔ m ≠ e ∧ m ∈ d.entities ∧ Inside d.get? m e := by
  rw [Provider.mem_descendants_iff, hd.transGen_children_iff he]

theorem mem_subtree_iff (hd : d.Consistent) {e m : Entity} (he : e ∈ d.entities) :
    m ∈ d.provider.subtree e ↔ m ∈ d.entities ∧ (m = e ∨ Inside d.get? m e) := by
  rw [Provider.mem_subtree, hd.mem_descendants_iff he]
  by_cases hme : m = e
  · simp [hme, he]
  · simp [hme]

theorem unit_mem (hd : d.Consistent) {y x : Entity} (hy : y ∈ d.entities)
    (hx : StandsFor d.get? y x) : x ∈ d.entities := by
  rcases hx with ⟨_, hnearest⟩ | ⟨_, rfl⟩
  · obtain ⟨name, hfind⟩ := hnearest.exists_find
    exact (hd.get?_eq_some_iff.1 hfind).1
  · exact hy

/-- The aggregated set of an entity: the units at the far ends of the usages of its subtree. -/
theorem mem_related_iff_joined (hd : d.Consistent) {e x : Entity} (he : e ∈ d.entities) :
    x ∈ d.provider.related e ↔
      (∃ m y, d.Joined m y ∧ m ∈ d.provider.subtree e ∧ d.provider.unit y = x ∧
        some x ≠ d.provider.enclosingClass m) ∧
      x ∉ d.provider.subtree e ∧ some x ≠ d.provider.enclosingClass e := by
  rw [Provider.mem_related_iff_endpoints, Provider.outside_subtree_iff]
  apply and_congr_left
  intro _
  simp only [← Provider.mem_subtree]
  constructor
  · intro h
    rcases h with ⟨m, hm, hendpoint, hclass⟩
    have hmem := ((hd.mem_subtree_iff he).1 hm).1
    obtain ⟨y, hjoined, hy⟩ := (hd.mem_endpoints_iff hmem).1 hendpoint
    exact ⟨m, y, hjoined, hm, hy, hclass⟩
  · intro h
    rcases h with ⟨m, y, hjoined, hm, hy, hclass⟩
    exact ⟨m, hm, (hd.mem_endpoints_iff hjoined.mem).2 ⟨y, hjoined, hy⟩, hclass⟩

theorem mem_related_iff (hd : d.Consistent) {e x : Entity} (he : e ∈ d.entities) :
    x ∈ d.provider.related e ↔
      (∃ m y, d.Joined m y ∧ (m = e ∨ Inside d.get? m e) ∧ StandsFor d.get? y x ∧
        ¬ BelongsTo d.get? m x) ∧
      x ≠ e ∧ ¬ Inside d.get? x e ∧ ¬ BelongsTo d.get? e x := by
  have hown : ∀ m, some x ≠ d.provider.enclosingClass m ↔ ¬ BelongsTo d.get? m x := by
    intro m
    rw [ne_comm, ne_eq, Provider.enclosingClass_eq_some_iff]
    rfl
  rw [hd.mem_related_iff_joined he]
  simp only [hown, Provider.unit_eq_iff]
  constructor
  · intro h
    rcases h with ⟨⟨m, y, hjoined, hm, hstands, hclass⟩, houtside, hout⟩
    have hx := hd.unit_mem hjoined.symm.mem hstands
    have hnot : ¬ (x = e ∨ Inside d.get? x e) := fun h =>
      houtside ((hd.mem_subtree_iff he).2 ⟨hx, h⟩)
    exact ⟨⟨m, y, hjoined, ((hd.mem_subtree_iff he).1 hm).2, hstands, hclass⟩,
      fun h => hnot (.inl h), fun h => hnot (.inr h), hout⟩
  · intro h
    rcases h with ⟨⟨m, y, hjoined, hm, hstands, hclass⟩, hne, houtside, hout⟩
    have hnot : ¬ (x = e ∨ Inside d.get? x e) := not_or.2 ⟨hne, houtside⟩
    exact ⟨⟨m, y, hjoined, (hd.mem_subtree_iff he).2 ⟨hjoined.mem, hm⟩, hstands, hclass⟩,
      fun h => hnot ((hd.mem_subtree_iff he).1 h).2, hout⟩

end Consistent

/-- In every design that calls can build, the direct set of a unit is its neighbourhood among the
units, so that coupling between units is symmetric. An entity that has a unit of its own reaches the
units at the far ends of its usages, less the class that it belongs to. -/
theorem directRelated_ofCalls (calls : List Call) {d : Design} (hd : ofCalls calls = d) :
    (∀ x ∈ d.entities, d.provider.enclosingClass x = none → ∀ y,
      y ∈ d.provider.directRelated x ↔
        (∃ u v, d.Joined u v ∧ d.provider.unit u = x ∧ d.provider.unit v = y) ∧ y ≠ x) ∧
    (∀ a ∈ d.entities, ∀ b ∈ d.entities, d.provider.enclosingClass a = none →
      d.provider.enclosingClass b = none →
      (b ∈ d.provider.directRelated a ↔ a ∈ d.provider.directRelated b)) ∧
    ∀ x ∈ d.entities, ∀ c, d.provider.enclosingClass x = some c → ∀ y,
      y ∈ d.provider.directRelated x ↔ (∃ v, d.Joined x v ∧ d.provider.unit v = y) ∧ y ≠ c := by
  have hconsistent : d.Consistent := hd ▸ Consistent.ofCalls calls
  refine ⟨fun x hx hunit y => hconsistent.mem_directRelated_of_unit hx hunit, ?_,
    fun x hx c hclass y => hconsistent.mem_directRelated_of_member hx hclass⟩
  intro a ha b hb haunit hbunit
  exact ⟨hconsistent.directRelated_symm ha hb haunit hbunit,
    hconsistent.directRelated_symm hb ha hbunit haunit⟩

/-- A class and a method that contain each other, and a class that the method uses. -/
def circlingCalls : List Call :=
  [.addEntity "c" .classDecl, .addEntity "m" .method, .addEntity "x" .classDecl,
    .addContainment "c" "m", .addContainment "m" "c", .addUsage "m" "x"]

/-- The two classes are coupled both ways, although one of them lies inside its own method. -/
theorem directRelated_circlingCalls :
    ∃ d c m x, ofCalls circlingCalls = d ∧ c ∈ d.entities ∧ m ∈ d.entities ∧ x ∈ d.entities ∧
      d.provider.enclosingClass c = none ∧ d.provider.enclosingClass m = some c ∧
      d.provider.enclosingClass x = none ∧ x ∈ d.provider.directRelated c ∧
      c ∈ d.provider.directRelated x ∧ x ∈ d.provider.directRelated m := by
  let c : Entity := ⟨"c", .classDecl, some "m"⟩
  let m : Entity := ⟨"m", .method, some "c"⟩
  let x : Entity := ⟨"x", .classDecl, none⟩
  have hentities : (ofCalls circlingCalls).entities = #[c, m, x] := rfl
  have hc : c ∈ (ofCalls circlingCalls).entities := by rw [hentities]; simp
  have hm : m ∈ (ofCalls circlingCalls).entities := by rw [hentities]; simp
  have hx : x ∈ (ofCalls circlingCalls).entities := by rw [hentities]; simp
  have hcunit : (ofCalls circlingCalls).provider.enclosingClass c = none :=
    Provider.enclosingClass_of_class rfl
  have hmclass : (ofCalls circlingCalls).provider.enclosingClass m = some c :=
    Provider.enclosingClass_eq_some_iff.2 ⟨rfl, .here rfl rfl⟩
  have hxunit : (ofCalls circlingCalls).provider.enclosingClass x = none :=
    Provider.enclosingClass_of_class rfl
  have hjoined : (ofCalls circlingCalls).Joined m x := by
    refine .inl ⟨⟨.uses, 1, 2⟩, ?_, rfl, ?_, ?_⟩
    · have hlinks : (ofCalls circlingCalls).links =
          #[⟨.contains, 0, 1⟩, ⟨.contains, 1, 0⟩, ⟨.uses, 1, 2⟩] := rfl
      rw [hlinks]
      simp
    · rw [hentities]
      rfl
    · rw [hentities]
      rfl
  have hmunit : (ofCalls circlingCalls).provider.unit m = c := by
    rw [Provider.unit, hmclass, Option.getD_some]
  have hxself : (ofCalls circlingCalls).provider.unit x = x := by
    rw [Provider.unit, hxunit, Option.getD_none]
  obtain ⟨hunits, hsymm, hmembers⟩ := directRelated_ofCalls circlingCalls rfl
  have hcx : x ∈ (ofCalls circlingCalls).provider.directRelated c :=
    (hunits c hc hcunit x).2 ⟨⟨m, x, hjoined, hmunit, hxself⟩, by decide⟩
  have hmx : x ∈ (ofCalls circlingCalls).provider.directRelated m :=
    (hmembers m hm c hmclass x).2 ⟨⟨x, hjoined, hxself⟩, by decide⟩
  exact ⟨_, c, m, x, rfl, hc, hm, hx, hcunit, hmclass, hxunit, hcx,
    (hsymm c hc x hx hcunit hxunit).1 hcx, hmx⟩

end DesignCoupling.Design
