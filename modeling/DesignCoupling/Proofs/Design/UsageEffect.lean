import DesignCoupling.Proofs.Design.UnitGraph

/-!
# The effect of one usage

A usage more leaves containers, contents and units as they are. It shows the unit of its far end to
the entities that have its near end among what they merge or contain, and changes nothing for any
other entity. No set loses anything by it, and a usage within one unit changes no set at all.
-/

namespace DesignCoupling

namespace Provider

variable (P : Provider)

/-- A usage between `u` and `v` brings `x` before `e`: its near end `u` is `e` or has `e` as its
unit, and the unit of its far end `v` is `x`. -/
def MeetsDirectly (e u v x : Entity) : Prop := (e = u ∨ e = P.unit u) ∧ x = P.unit v

/-- A usage between `u` and `v` brings `x` before `e` from outside: its near end `u` is in the
subtree of `e`, the unit of its far end `v` is `x`, and `x` is neither in this subtree nor the class
that `e` or `u` belongs to. -/
def Meets (e u v x : Entity) : Prop :=
  (u ∈ P.subtree e ∧ x = P.unit v ∧ some x ≠ P.enclosingClass u) ∧
    x ∉ P.subtree e ∧ some x ≠ P.enclosingClass e

variable {P} {e u v x : Entity}

theorem MeetsDirectly.not_of_unit_eq (h : P.MeetsDirectly e u v x) (hunit : P.unit u = P.unit v) :
    ¬ (x ≠ e ∧ some x ≠ P.enclosingClass e) := by
  intro hcounts
  obtain ⟨hnear, hx⟩ := h
  have hux : P.unit u = x := hunit.trans hx.symm
  rcases hnear with rfl | hnear
  · exact (eq_or_enclosingClass_of_unit hux).elim hcounts.1 hcounts.2
  · exact hcounts.1 (hux.symm.trans hnear.symm)

theorem Meets.unit_ne (h : P.Meets e u v x) : P.unit u ≠ P.unit v := by
  intro hunit
  obtain ⟨⟨hu, hx, hclass⟩, hout, _⟩ := h
  rcases eq_or_enclosingClass_of_unit (hunit.trans hx.symm) with rfl | hbelongs
  · exact hout hu
  · exact hclass hbelongs

end Provider

namespace Design

variable {d : Design}

theorem children_link_uses (s t : Nat) :
    (d.link .uses s t).provider.children = d.provider.children := by
  have htargets : (d.link .uses s t).targets .contains = d.targets .contains := by
    funext i
    simp [targets, link]
  funext e
  change (d.link .uses s t).neighbours _ e.name = d.neighbours _ e.name
  rw [htargets]
  rfl

theorem subtree_link_uses (s t : Nat) (e : Entity) :
    (d.link .uses s t).provider.subtree e = d.provider.subtree e := by
  rw [Provider.subtree, Provider.subtree, Provider.descendants, Provider.descendants,
    children_link_uses]
  rfl

theorem lookup_link_uses (s t : Nat) :
    (d.link .uses s t).provider.lookup = d.provider.lookup := rfl

theorem enclosingClass_link_uses (s t : Nat) (e : Entity) :
    (d.link .uses s t).provider.enclosingClass e = d.provider.enclosingClass e :=
  Provider.enclosingClass_congr (lookup_link_uses s t) e

theorem unit_link_uses (s t : Nat) (e : Entity) :
    (d.link .uses s t).provider.unit e = d.provider.unit e :=
  Provider.unit_congr (lookup_link_uses s t) e

theorem leads_link {kind kind' : LinkKind} {s t : Nat} {a b : Entity} :
    (d.link kind s t).Leads kind' a b ↔
      d.Leads kind' a b ∨ kind = kind' ∧ d.entities[s]? = some a ∧ d.entities[t]? = some b := by
  simp only [Leads, links_link, entities_link, Array.mem_push, or_and_right, exists_or,
    exists_eq_left]

section Ends

variable {s t : Nat} {u v : Entity} (hs : d.entities[s]? = some u) (ht : d.entities[t]? = some v)

include hs ht

theorem joined_link_uses {a b : Entity} :
    (d.link .uses s t).Joined a b ↔ d.Joined a b ∨ a = u ∧ b = v ∨ a = v ∧ b = u := by
  rw [Joined, Joined, leads_link, leads_link, hs, ht, or_or_or_comm]
  simp only [true_and, Option.some.injEq, eq_comm (b := a), eq_comm (b := b),
    and_comm (a := b = u)]

theorem exists_joined_link_uses (p : Entity → Entity → Prop) :
    (∃ a b, (d.link .uses s t).Joined a b ∧ p a b) ↔
      (∃ a b, d.Joined a b ∧ p a b) ∨ p u v ∨ p v u := by
  simp only [joined_link_uses hs ht, or_and_right, exists_or]
  apply or_congr_right
  apply or_congr
  · simp only [and_assoc, exists_and_left, exists_eq_left]
  · simp only [and_assoc, exists_and_left, exists_eq_left]

end Ends

namespace Consistent

section Ends

variable {s t : Nat} {u v e x : Entity} (hd : d.Consistent) (hs : d.entities[s]? = some u)
  (ht : d.entities[t]? = some v) (he : e ∈ d.entities)

include hd hs ht

theorem link_uses_entities : (d.link .uses s t).Consistent :=
  hd.link_uses (hd.indexOf?_getElem? hs) (hd.indexOf?_getElem? ht)

include he

theorem mem_directRelated_link_uses :
    x ∈ (d.link .uses s t).provider.directRelated e ↔
      (x ∈ d.provider.directRelated e ∨ d.provider.MeetsDirectly e u v x ∨
          d.provider.MeetsDirectly e v u x) ∧
        x ≠ e ∧ some x ≠ d.provider.enclosingClass e := by
  have hd' := hd.link_uses_entities hs ht
  rw [hd'.mem_directRelated_iff he, hd.mem_directRelated_iff he]
  simp only [unit_link_uses, enclosingClass_link_uses, exists_joined_link_uses hs ht]
  apply and_congr_left
  intro hcounts
  rw [and_iff_left hcounts, Provider.MeetsDirectly, Provider.MeetsDirectly, eq_comm (a := x),
    eq_comm (a := x)]

theorem mem_related_link_uses :
    x ∈ (d.link .uses s t).provider.related e ↔
      x ∈ d.provider.related e ∨ d.provider.Meets e u v x ∨ d.provider.Meets e v u x := by
  have hd' := hd.link_uses_entities hs ht
  rw [hd'.mem_related_iff_joined he, hd.mem_related_iff_joined he]
  simp only [unit_link_uses, enclosingClass_link_uses, subtree_link_uses,
    exists_joined_link_uses hs ht]
  rw [or_and_right, or_and_right, Provider.Meets, Provider.Meets, eq_comm (a := x),
    eq_comm (a := x)]

theorem directRelated_subset_link_uses (hx : x ∈ d.provider.directRelated e) :
    x ∈ (d.link .uses s t).provider.directRelated e :=
  (hd.mem_directRelated_link_uses hs ht he).2 ⟨.inl hx, ((d.provider.mem_directRelated).1 hx).2⟩

theorem mem_directRelated_link_uses_of_not_mem
    (hother : e ∉ [u, v, d.provider.unit u, d.provider.unit v]) :
    x ∈ (d.link .uses s t).provider.directRelated e ↔ x ∈ d.provider.directRelated e := by
  simp only [List.mem_cons, List.not_mem_nil, or_false, not_or] at hother
  obtain ⟨heu, hev, hunitu, hunitv⟩ := hother
  have hnotu : ¬ d.provider.MeetsDirectly e u v x := fun h => h.1.elim heu hunitu
  have hnotv : ¬ d.provider.MeetsDirectly e v u x := fun h => h.1.elim hev hunitv
  rw [hd.mem_directRelated_link_uses hs ht he, or_iff_left (not_or.2 ⟨hnotu, hnotv⟩)]
  exact and_iff_left_of_imp fun hx => ((d.provider.mem_directRelated).1 hx).2

theorem mem_related_link_uses_of_not_mem (hnotu : u ∉ d.provider.subtree e)
    (hnotv : v ∉ d.provider.subtree e) :
    x ∈ (d.link .uses s t).provider.related e ↔ x ∈ d.provider.related e := by
  rw [hd.mem_related_link_uses hs ht he]
  apply or_iff_left
  intro h
  rcases h with h | h
  · exact hnotu h.1.1
  · exact hnotv h.1.1

theorem mem_directRelated_link_uses_of_unit_eq (hunit : d.provider.unit u = d.provider.unit v) :
    x ∈ (d.link .uses s t).provider.directRelated e ↔ x ∈ d.provider.directRelated e := by
  constructor
  · intro h
    rcases (hd.mem_directRelated_link_uses hs ht he).1 h with ⟨hx | hmeets | hmeets, hcounts⟩
    · exact hx
    · exact absurd hcounts (hmeets.not_of_unit_eq hunit)
    · exact absurd hcounts (hmeets.not_of_unit_eq hunit.symm)
  · exact hd.directRelated_subset_link_uses hs ht he

theorem mem_related_link_uses_of_unit_eq (hunit : d.provider.unit u = d.provider.unit v) :
    x ∈ (d.link .uses s t).provider.related e ↔ x ∈ d.provider.related e := by
  rw [hd.mem_related_link_uses hs ht he]
  apply or_iff_left
  intro h
  rcases h with h | h
  · exact h.unit_ne hunit
  · exact h.unit_ne hunit.symm

end Ends

end Consistent

/-- A usage between two entities of any design that calls can build brings each entity what it meets
by either end of the usage, less the entity itself and its class, and nothing more. So no set
shrinks, no set changes of an entity that the usage does not reach, and within one unit a usage
changes no set at all. -/
theorem coupling_addUsage (calls : List Call) {d : Design} (hd : ofCalls calls = d) {u v : Entity}
    (hu : u ∈ d.entities) (hv : v ∈ d.entities) :
    ∃ d', d.addUsage u.name v.name = some d' ∧
      (∀ e ∈ d.entities, ∀ x, x ∈ d'.provider.directRelated e ↔
        (x ∈ d.provider.directRelated e ∨ d.provider.MeetsDirectly e u v x ∨
            d.provider.MeetsDirectly e v u x) ∧
          x ≠ e ∧ some x ≠ d.provider.enclosingClass e) ∧
      (∀ e ∈ d.entities, ∀ x, x ∈ d'.provider.related e ↔
        x ∈ d.provider.related e ∨ d.provider.Meets e u v x ∨ d.provider.Meets e v u x) ∧
      (∀ e ∈ d.entities, ∀ x,
        (x ∈ d.provider.directRelated e → x ∈ d'.provider.directRelated e) ∧
        (x ∈ d.provider.related e → x ∈ d'.provider.related e)) ∧
      (∀ e ∈ d.entities, e ∉ [u, v, d.provider.unit u, d.provider.unit v] →
        ∀ x, x ∈ d'.provider.directRelated e ↔ x ∈ d.provider.directRelated e) ∧
      (∀ e ∈ d.entities, u ∉ d.provider.subtree e → v ∉ d.provider.subtree e →
        ∀ x, x ∈ d'.provider.related e ↔ x ∈ d.provider.related e) ∧
      (d.provider.unit u = d.provider.unit v → ∀ e ∈ d.entities, ∀ x,
        (x ∈ d'.provider.directRelated e ↔ x ∈ d.provider.directRelated e) ∧
        (x ∈ d'.provider.related e ↔ x ∈ d.provider.related e)) := by
  have hconsistent : d.Consistent := hd ▸ Consistent.ofCalls calls
  obtain ⟨s, hs⟩ := Array.mem_iff_getElem?.1 hu
  obtain ⟨t, ht⟩ := Array.mem_iff_getElem?.1 hv
  have hadded : d.addUsage u.name v.name = some (d.link .uses s t) :=
    addUsage_eq_some_iff.2 ⟨s, t, hconsistent.indexOf?_getElem? hs,
      hconsistent.indexOf?_getElem? ht, rfl⟩
  refine ⟨_, hadded, fun e he x => hconsistent.mem_directRelated_link_uses hs ht he,
    fun e he x => hconsistent.mem_related_link_uses hs ht he, ?_, ?_, ?_, ?_⟩
  · intro e he x
    constructor
    · exact hconsistent.directRelated_subset_link_uses hs ht he
    · exact fun hx => (hconsistent.mem_related_link_uses hs ht he).2 (.inl hx)
  · intro e he hother x
    exact hconsistent.mem_directRelated_link_uses_of_not_mem hs ht he hother
  · intro e he hnotu hnotv x
    exact hconsistent.mem_related_link_uses_of_not_mem hs ht he hnotu hnotv
  · intro hunit e he x
    constructor
    · exact hconsistent.mem_directRelated_link_uses_of_unit_eq hs ht he hunit
    · exact hconsistent.mem_related_link_uses_of_unit_eq hs ht he hunit

/-- A class and its method that contain each other, and a class with a method outside. -/
def circleAndClass : List Call :=
  [.addEntity "c" .classDecl, .addEntity "m" .method, .addEntity "x" .classDecl,
    .addEntity "f" .method, .addContainment "c" "m", .addContainment "m" "c",
    .addContainment "x" "f"]

/-- When one method uses the other, each is coupled to the class of the other, and so are their own
classes. -/
theorem coupling_circleAndClass :
    ∃ d d' c m x f, ofCalls circleAndClass = d ∧ d.entities = #[c, m, x, f] ∧
      d.addUsage "m" "f" = some d' ∧ d.provider.unit m = c ∧ d.provider.unit f = x ∧
      (d.provider.directRelated c).elems = [] ∧ x ∈ d'.provider.directRelated c ∧
      x ∈ d'.provider.related m ∧ c ∈ d'.provider.directRelated f ∧ c ∈ d'.provider.related x := by
  let c : Entity := ⟨"c", .classDecl, some "m"⟩
  let m : Entity := ⟨"m", .method, some "c"⟩
  let x : Entity := ⟨"x", .classDecl, none⟩
  let f : Entity := ⟨"f", .method, some "x"⟩
  have hentities : (ofCalls circleAndClass).entities = #[c, m, x, f] := rfl
  have hmem : ∀ e ∈ [c, m, x, f], e ∈ (ofCalls circleAndClass).entities := by
    rw [hentities]
    simp
  have hm : (ofCalls circleAndClass).provider.enclosingClass m = some c := by cbv
  have hf : (ofCalls circleAndClass).provider.enclosingClass f = some x := by cbv
  have hmunit : (ofCalls circleAndClass).provider.unit m = c := by cbv
  have hfunit : (ofCalls circleAndClass).provider.unit f = x := by cbv
  have hnone : ((ofCalls circleAndClass).provider.directRelated c).elems = [] := by cbv
  have hbelowm : (ofCalls circleAndClass).provider.subtree m = [m, c] := by cbv
  have hbelowx : (ofCalls circleAndClass).provider.subtree x = [x, f] := by cbv
  obtain ⟨d', hd', hdirect, hrelated, _⟩ :=
    coupling_addUsage circleAndClass rfl (hmem m (by simp)) (hmem f (by simp))
  refine ⟨_, d', c, m, x, f, rfl, hentities, hd', hmunit, hfunit, hnone, ?_, ?_, ?_, ?_⟩
  · refine (hdirect c (hmem c (by simp)) x).2 ⟨.inr (.inl ⟨.inr hmunit.symm, hfunit.symm⟩), ?_⟩
    rw [Provider.enclosingClass_of_class rfl]
    decide
  · refine (hrelated m (hmem m (by simp)) x).2 (.inr (.inl ⟨⟨?_, hfunit.symm, ?_⟩, ?_, ?_⟩))
    · rw [hbelowm]; decide
    · rw [hm]; decide
    · rw [hbelowm]; decide
    · rw [hm]; decide
  · refine (hdirect f (hmem f (by simp)) c).2 ⟨.inr (.inr ⟨.inl rfl, hmunit.symm⟩), ?_⟩
    rw [hf]
    decide
  · refine (hrelated x (hmem x (by simp)) c).2 (.inr (.inr ⟨⟨?_, hmunit.symm, ?_⟩, ?_, ?_⟩))
    · rw [hbelowx]; decide
    · rw [hf]; decide
    · rw [hbelowx]; decide
    · rw [Provider.enclosingClass_of_class rfl]; decide

end Design

end DesignCoupling
