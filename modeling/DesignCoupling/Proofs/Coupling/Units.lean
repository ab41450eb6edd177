import DesignCoupling.Coupling
import DesignCoupling.Proofs.Containment

/-!
# Units

The class found for an entity is the nearest one on the way up, also where containers run in a
circle: a name met before leads nowhere that has not been met again above. So an entity stands for
that class, or for itself where there is none. Nothing is assumed of the provider.
-/

namespace DesignCoupling.Provider

open Containment

variable {P : Provider}

/-- The nearest class, met through fresh container names only. -/
private inductive NearestIn (find : String → Option Entity) (fresh : List String) :
    Entity → Entity → Prop
  | here {e c : Entity} {name : String} (hparent : e.parent = some name) (hfresh : name ∈ fresh)
      (hfind : find name = some c) (hkind : c.kind = .classDecl) : NearestIn find fresh e c
  | above {e r c : Entity} {name : String} (hparent : e.parent = some name)
      (hfresh : name ∈ fresh) (hfind : find name = some r) (hkind : r.kind ≠ .classDecl)
      (hnearest : NearestIn find fresh r c) : NearestIn find fresh e c

private theorem NearestIn.nearestClass {find : String → Option Entity} {fresh : List String}
    {e c : Entity} (h : NearestIn find fresh e c) : NearestClass find e c := by
  induction h with
  | here hparent _ hfind hkind => exact .here (container_eq_some_iff.2 ⟨_, hparent, hfind⟩) hkind
  | above hparent _ hfind hkind _ ih =>
      exact .above (container_eq_some_iff.2 ⟨_, hparent, hfind⟩) hkind ih

private theorem NearestIn.mono {find : String → Option Entity} {fresh fresh' : List String}
    (hsub : ∀ name ∈ fresh, name ∈ fresh') {e c : Entity} (h : NearestIn find fresh e c) :
    NearestIn find fresh' e c := by
  induction h with
  | here hparent hfresh hfind hkind => exact .here hparent (hsub _ hfresh) hfind hkind
  | above hparent hfresh hfind hkind _ ih => exact .above hparent (hsub _ hfresh) hfind hkind ih

/-- The way up to the nearest class avoids a name, at least above its last use. -/
private theorem NearestIn.avoid {find : String → Option Entity} {fresh : List String}
    {e c : Entity} (h : NearestIn find fresh e c) (name : String) :
    NearestIn find (Search.without fresh name) e c ∨
      ∃ r, find name = some r ∧
        (r.kind = .classDecl ∧ r = c ∨ NearestIn find (Search.without fresh name) r c) := by
  induction h with
  | @here e c met hparent hfresh hfind hkind =>
      by_cases hname : met = name
      · subst hname
        exact .inr ⟨c, hfind, .inl ⟨hkind, rfl⟩⟩
      · exact .inl (.here hparent (Search.mem_without.2 ⟨hfresh, hname⟩) hfind hkind)
  | @above e r c met hparent hfresh hfind hkind _ ih =>
      rcases ih with hpath | hlast
      · by_cases hname : met = name
        · subst hname
          exact .inr ⟨r, hfind, .inr hpath⟩
        · exact .inl (.above hparent (Search.mem_without.2 ⟨hfresh, hname⟩) hfind hkind hpath)
      · exact .inr hlast

private theorem NearestIn.first_step {find : String → Option Entity} {fresh : List String}
    {e c : Entity} (h : NearestIn find fresh e c) {name : String} (he : e.parent = some name) :
    name ∈ fresh ∧ ∃ r, find name = some r ∧
      (r.kind = .classDecl ∧ r = c ∨ r.kind ≠ .classDecl ∧ NearestIn find fresh r c) := by
  cases h with
  | here hparent hfresh hfind hkind =>
      obtain rfl := Option.some.inj (he.symm.trans hparent)
      exact ⟨hfresh, c, hfind, .inl ⟨hkind, rfl⟩⟩
  | @above _ r _ _ hparent hfresh hfind hkind hnearest =>
      obtain rfl := Option.some.inj (he.symm.trans hparent)
      exact ⟨hfresh, r, hfind, .inr ⟨hkind, hnearest⟩⟩

private theorem classAbove_eq_some_iff {fresh : List String} {container : Option String}
    {e c : Entity} (he : e.parent = container) :
    P.classAbove fresh container = some c ↔ NearestIn P.lookup fresh e c := by
  -- along the recursion of the walk: a name that was met leads nowhere that is not met again above
  fun_induction Provider.classAbove P fresh container generalizing e with
  | case1 fresh =>
      refine ⟨fun h => by simp at h, fun h => ?_⟩
      cases h <;> simp_all
  | case2 fresh name hname _ hlookup =>
      refine ⟨fun h => by simp at h, fun h => ?_⟩
      obtain ⟨_, r, hr, _⟩ := h.first_step he
      simp [hlookup] at hr
  | case3 fresh name hname _ r hlookup hkind =>
      constructor
      · intro h
        obtain rfl := Option.some.inj h
        exact .here he hname hlookup hkind
      · intro h
        obtain ⟨_, r', hr', hcase⟩ := h.first_step he
        obtain rfl := Option.some.inj (hlookup.symm.trans hr')
        rcases hcase with ⟨_, rfl⟩ | ⟨hother, _⟩
        · rfl
        · exact absurd hkind hother
  | case4 fresh name hname _ r hlookup hkind ih =>
      rw [ih rfl]
      constructor
      · intro h
        exact .above he hname hlookup hkind (h.mono fun n hn => (Search.mem_without.1 hn).1)
      · intro h
        obtain ⟨_, r', hr', hcase⟩ := h.first_step he
        obtain rfl := Option.some.inj (hlookup.symm.trans hr')
        have hnearest := (hcase.resolve_left fun hclass => hkind hclass.1).2
        rcases hnearest.avoid name with hpath | ⟨r', hr', hcase⟩
        · exact hpath
        · obtain rfl := Option.some.inj (hlookup.symm.trans hr')
          exact hcase.resolve_left fun hclass => hkind hclass.1
  | case5 fresh name hname =>
      refine ⟨fun h => by simp at h, fun h => ?_⟩
      exact absurd (h.first_step he).1 hname

private theorem NearestIn.of_nearestClass {e c : Entity} (h : NearestClass P.lookup e c)
    {fresh : List String} (hparent : ∀ name, e.parent = some name → name ∈ fresh)
    (hnames : ∀ name ∈ P.containerNames, name ∈ fresh) : NearestIn P.lookup fresh e c := by
  induction h with
  | here hc hkind =>
      obtain ⟨name, hname, hfind⟩ := container_eq_some_iff.1 hc
      exact .here hname (hparent name hname) hfind hkind
  | @above e r c hr hkind _ ih =>
      obtain ⟨name, hname, hfind⟩ := container_eq_some_iff.1 hr
      refine .above hname (hparent name hname) hfind hkind (ih fun above habove => hnames above ?_)
      exact List.mem_filterMap.2 ⟨r, P.mem_of_lookup hfind, habove⟩

/-- The class that is found for an entity is the one that it belongs to. -/
theorem enclosingClass_eq_some_iff {e c : Entity} :
    P.enclosingClass e = some c ↔ BelongsTo P.lookup e c := by
  unfold enclosingClass BelongsTo
  by_cases hmember : e.kind.isMember = true
  · rw [if_pos hmember, classAbove_eq_some_iff rfl, and_iff_right hmember]
    constructor
    · exact NearestIn.nearestClass
    · intro h
      refine .of_nearestClass h (fun name hname => ?_) fun name => List.mem_append_right _
      exact List.mem_append_left _ (by simp [hname])
  · simp [hmember]

theorem unit_eq_iff {e x : Entity} : P.unit e = x ↔ StandsFor P.lookup e x := by
  unfold unit StandsFor
  simp only [← enclosingClass_eq_some_iff]
  cases P.enclosingClass e with
  | none => simp [eq_comm]
  | some c => simp

theorem standsFor_unit (P : Provider) (e : Entity) : StandsFor P.lookup e (P.unit e) :=
  unit_eq_iff.1 rfl

theorem enclosingClass_congr {P' : Provider} (h : P.lookup = P'.lookup) (e : Entity) :
    P.enclosingClass e = P'.enclosingClass e := by
  apply Option.ext
  intro c
  rw [enclosingClass_eq_some_iff, enclosingClass_eq_some_iff, h]

theorem unit_congr {P' : Provider} (h : P.lookup = P'.lookup) (e : Entity) :
    P.unit e = P'.unit e := by
  rw [unit, unit, enclosingClass_congr h]

theorem eq_or_enclosingClass_of_unit {e x : Entity} (h : P.unit e = x) :
    x = e ∨ some x = P.enclosingClass e := by
  unfold unit at h
  cases hclass : P.enclosingClass e with
  | none =>
      rw [hclass, Option.getD_none] at h
      exact .inl h.symm
  | some c =>
      rw [hclass, Option.getD_some] at h
      exact .inr (congrArg some h.symm)

theorem enclosingClass_of_class {c : Entity} (hkind : c.kind = .classDecl) :
    P.enclosingClass c = none := by
  simp [enclosingClass, hkind, EntityKind.isMember]

@[simp] theorem enclosingClass_unit (e : Entity) : P.enclosingClass (P.unit e) = none := by
  unfold unit
  cases he : P.enclosingClass e with
  | none => exact he
  | some c => exact enclosingClass_of_class (enclosingClass_eq_some_iff.1 he).2.kind_eq

end DesignCoupling.Provider
