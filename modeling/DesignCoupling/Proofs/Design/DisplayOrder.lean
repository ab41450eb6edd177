import DesignCoupling.Proofs.Design.Likeness
import DesignCoupling.Proofs.NameOrder

/-!
# Display of a coupling set

The members of a coupling set are entities of the design, also when the set is asked for with an
entity that the design does not hold. No two of them share a name then, and so the list that is
shown does not tell in which order the set was listed before it was sorted.
-/

namespace DesignCoupling.Design

open EntitySet

/-- The sets that are shown for an entity. -/
inductive Shown (d : Design) (e : Entity) : EntitySet → Prop
  | direct : Shown d e (d.provider.directRelated e)
  | aggregated : Shown d e (d.provider.related e)

variable {d : Design}

namespace Consistent

theorem mem_of_shown (hd : d.Consistent) {e x : Entity} {s : EntitySet} (hs : d.Shown e s)
    (hx : x ∈ s) : x ∈ d.entities := by
  cases hs with
  | direct => exact hd.mem_of_mem_directRelated hx
  | aggregated => exact hd.mem_of_mem_related hx

theorem eq_of_shown (hd : d.Consistent) {e : Entity} {s : EntitySet} (hs : d.Shown e s)
    {a b : Entity} (ha : a ∈ s) (hb : b ∈ s) (hname : a.name = b.name) : a = b :=
  hd.eq_of_name_eq (hd.mem_of_shown hs ha) (hd.mem_of_shown hs hb) hname

end Consistent

/-- Whatever order the members of a set come in, sorting them by name gives the same list: the one
in which names go up by code points and every member stands once. Sorting compares the bytes of
names, and the entity asked about need not be in the design. -/
theorem byName_of_shown (calls : List Call) (e : Entity) {s : EntitySet}
    (hs : (ofCalls calls).Shown e s) {es es' : List Entity} (hes : s.Lists es)
    (hes' : s.Lists es') :
    byName es = byName es' ∧ byName es = s.sorted ∧ s.Displays (byName es) ∧
      byName es = es.mergeSort fun a b => decide (utf8 a.name ≤ utf8 b.name) := by
  have hd := Consistent.ofCalls calls
  have hnames : ∀ a ∈ s, ∀ b ∈ s, a.name = b.name → a = b :=
    fun a ha b hb => hd.eq_of_shown hs ha hb
  have hdisplays : ∀ {ls : List Entity}, s.Lists ls → s.Displays (byName ls) :=
    fun hls => hls.displays_byName hnames
  exact ⟨(hdisplays hes).eq (hdisplays hes'), (hdisplays hes).eq (hdisplays s.lists_elems),
    hdisplays hes, byName_eq_mergeSort_utf8 es⟩

/-- A class uses one class and is used by another. -/
def betweenCalls : List Call :=
  [.addEntity "a.K" .classDecl, .addEntity "b.L" .classDecl, .addEntity "c.M" .classDecl,
    .addUsage "a.K" "c.M", .addUsage "b.L" "a.K"]

/-- An entity that has only its name in common with the class in the middle. -/
def namesake : Entity := ⟨"a.K", .method, some "x"⟩

/-- The set for the namesake holds the classes on both sides. Both of its listings are shown
alike. -/
theorem byName_of_shown_namesake :
    ∃ l m : Entity, l ≠ m ∧
      ((ofCalls betweenCalls).provider.directRelated namesake).Lists [l, m] ∧
      ((ofCalls betweenCalls).provider.directRelated namesake).Lists [m, l] ∧
      byName [m, l] = byName [l, m] ∧
      ((ofCalls betweenCalls).provider.directRelated namesake).Displays (byName [m, l]) := by
  let l : Entity := ⟨"b.L", .classDecl, none⟩
  let m : Entity := ⟨"c.M", .classDecl, none⟩
  have helems : ((ofCalls betweenCalls).provider.directRelated namesake).elems = [l, m] := by cbv
  have hlm := lists_elems ((ofCalls betweenCalls).provider.directRelated namesake)
  rw [helems] at hlm
  have hml := hlm.of_perm (.swap l m [])
  obtain ⟨hsame, _, hdisplays, _⟩ :=
    byName_of_shown betweenCalls namesake .direct hml hlm
  exact ⟨l, m, by decide, hlm, hml, hsame, hdisplays⟩

end DesignCoupling.Design
