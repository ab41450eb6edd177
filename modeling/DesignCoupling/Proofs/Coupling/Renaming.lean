import DesignCoupling.Coupling
import DesignCoupling.Proofs.EntitySet

/-!
# Renaming entities

Names are compared and looked up, and nothing else is done with them. So when no two names become
the same, the analysis of the renamed entities is the renamed analysis: every function of the
analysis commutes with the renaming, lists keep their order and numbers do not change. The answers
of the provider need not fit together for this.
-/

namespace DesignCoupling

/-- The entity under a new name, in the same container under its new name. -/
def Entity.rename (f : String → String) (e : Entity) : Entity :=
  ⟨f e.name, e.kind, e.parent.map f⟩

namespace Entity

variable {f : String → String}

@[simp] theorem name_rename (e : Entity) : (e.rename f).name = f e.name := rfl

@[simp] theorem kind_rename (e : Entity) : (e.rename f).kind = e.kind := rfl

@[simp] theorem parent_rename (e : Entity) : (e.rename f).parent = e.parent.map f := rfl

theorem rename_injective (hf : Function.Injective f) : Function.Injective (Entity.rename f) := by
  intro a b h
  cases a
  cases b
  simp only [rename, mk.injEq] at h
  rcases h with ⟨hname, hkind, hparent⟩
  rw [hf hname, hkind, Option.map_injective hf hparent]

end Entity

namespace Search

variable {α β : Type} [DecidableEq α] [DecidableEq β] {g : α → β}

theorem without_map (hg : Function.Injective g) (fresh : List α) (a : α) :
    without (fresh.map g) (g a) = (without fresh a).map g := by
  unfold without
  rw [List.filter_map]
  congr 1
  apply List.filter_congr
  intro x _
  simp [hg.eq_iff]

/-- A search among images meets the images of the points, in the same order. -/
theorem walk_map (hg : Function.Injective g) {next : α → List α} {next' : β → List β}
    (hnext : ∀ a, next' (g a) = (next a).map g) (fresh pending : List α) :
    walk next' (fresh.map g) (pending.map g) = (walk next fresh pending).map g := by
  fun_induction walk next fresh pending with
  | case1 fresh => rw [List.map_nil, walk_nil]
  | case2 fresh a rest ha _ ih =>
      rw [List.map_cons, walk_cons_of_mem (List.mem_map_of_mem ha), without_map hg, hnext,
        ← List.map_append, ih, List.map_cons]
  | case3 fresh a rest ha ih =>
      have hga : g a ∉ fresh.map g := fun h => ha ((List.mem_map_of_injective hg).1 h)
      rw [List.map_cons, walk_cons_of_not_mem hga, ih]

end Search

namespace Provider

/-- A provider that answers about renamed entities what another answers about the entities. -/
structure Renamed (f : String → String) (P P' : Provider) : Prop where
  injective : Function.Injective f
  entities : P'.entities = P.entities.map (Entity.rename f)
  lookup : ∀ name, P'.lookup (f name) = (P.lookup name).map (Entity.rename f)
  usedBy : ∀ e, P'.usedBy (e.rename f) = (P.usedBy e).map (Entity.rename f)
  usersOf : ∀ e, P'.usersOf (e.rename f) = (P.usersOf e).map (Entity.rename f)
  children : ∀ e, P'.children (e.rename f) = (P.children e).map (Entity.rename f)

namespace Renamed

variable {f : String → String} {P P' : Provider}

theorem rename_injective (h : Renamed f P P') : Function.Injective (Entity.rename f) :=
  Entity.rename_injective h.injective

theorem containerNames (h : Renamed f P P') : P'.containerNames = P.containerNames.map f := by
  unfold Provider.containerNames
  rw [h.entities, List.filterMap_map, List.map_filterMap]
  rfl

theorem classAbove (h : Renamed f P P') (fresh : List String) (container : Option String) :
    P'.classAbove (fresh.map f) (container.map f) =
      (P.classAbove fresh container).map (Entity.rename f) := by
  fun_induction Provider.classAbove P fresh container with
  | case1 fresh => simp [Provider.classAbove]
  | case2 fresh name hname _ hlookup =>
      have hmem : f name ∈ fresh.map f := List.mem_map_of_mem hname
      simp [Provider.classAbove, hmem, h.lookup, hlookup]
  | case3 fresh name hname _ r hlookup hkind =>
      have hmem : f name ∈ fresh.map f := List.mem_map_of_mem hname
      simp [Provider.classAbove, hmem, h.lookup, hlookup, hkind]
  | case4 fresh name hname _ r hlookup hkind ih =>
      have hmem : f name ∈ fresh.map f := List.mem_map_of_mem hname
      rw [Option.map_some, Provider.classAbove]
      simp [hmem, h.lookup, hlookup, hkind, Search.without_map h.injective, ← ih]
  | case5 fresh name hname =>
      have hmem : f name ∉ fresh.map f :=
        fun hmem => hname ((List.mem_map_of_injective h.injective).1 hmem)
      rw [Option.map_some, Provider.classAbove, dif_neg hmem, Option.map_none]

theorem enclosingClass (h : Renamed f P P') (e : Entity) :
    P'.enclosingClass (e.rename f) = (P.enclosingClass e).map (Entity.rename f) := by
  have hfresh : (e.rename f).parent.toList ++ P'.containerNames =
      (e.parent.toList ++ P.containerNames).map f := by
    rw [List.map_append, h.containerNames, Entity.parent_rename, Option.toList_map]
  unfold Provider.enclosingClass
  rw [Entity.kind_rename, hfresh, Entity.parent_rename, h.classAbove]
  split <;> rfl

theorem unit (h : Renamed f P P') (e : Entity) :
    P'.unit (e.rename f) = (P.unit e).rename f := by
  unfold Provider.unit
  rw [h.enclosingClass, Option.getD_map]

theorem descendants (h : Renamed f P P') (e : Entity) :
    P'.descendants (e.rename f) = (P.descendants e).map (Entity.rename f) := by
  unfold Provider.descendants
  rw [h.entities, h.children, Search.without_map h.rename_injective,
    Search.walk_map h.rename_injective h.children]

theorem endpoints (h : Renamed f P P') (e : Entity) :
    P'.endpoints (e.rename f) = (P.endpoints e).map (Entity.rename f) := by
  have hunit : P'.unit ∘ Entity.rename f = Entity.rename f ∘ P.unit := funext h.unit
  unfold Provider.endpoints
  rw [h.usedBy, h.usersOf, ← List.map_append, List.map_map, List.map_map, hunit]

theorem enclosingClass_eq_iff (h : Renamed f P P') (e x : Entity) :
    some (x.rename f) = P'.enclosingClass (e.rename f) ↔ some x = P.enclosingClass e := by
  rw [h.enclosingClass, ← Option.map_some, (Option.map_injective h.rename_injective).eq_iff]

theorem members (h : Renamed f P P') (e : Entity) :
    P'.members (e.rename f) = (P.members e).map (Entity.rename f) := by
  unfold Provider.members
  rw [Entity.kind_rename, h.descendants]
  split
  · rw [List.filter_map]
    congr 1
    apply List.filter_congr
    intro m _
    have hsame := h.enclosingClass_eq_iff m e
    simp only [Function.comp_apply, decide_eq_decide]
    rw [eq_comm, hsame, eq_comm]
  · rfl

theorem directRelated (h : Renamed f P P') (e : Entity) :
    P'.directRelated (e.rename f) = (P.directRelated e).map h.rename_injective := by
  have hends : (e.rename f :: P'.members (e.rename f)).flatMap P'.endpoints =
      ((e :: P.members e).flatMap P.endpoints).map (Entity.rename f) := by
    rw [h.members, ← List.map_cons, List.flatMap_map, List.map_flatMap]
    simp only [h.endpoints]
  unfold Provider.directRelated
  rw [hends, EntitySet.ofList_map h.rename_injective, EntitySet.filter_map]
  intro x
  simp only [ne_eq, h.enclosingClass_eq_iff, h.rename_injective.eq_iff]

private theorem union_directRelated (h : Renamed f P P') (contents : List Entity)
    (s : EntitySet) :
    (contents.map (Entity.rename f)).foldl (fun s m => s.union (P'.directRelated m).elems)
        (s.map h.rename_injective) =
      (contents.foldl (fun s m => s.union (P.directRelated m).elems) s).map
        h.rename_injective := by
  induction contents generalizing s with
  | nil => rfl
  | cons m contents ih =>
      have hunion : (s.map h.rename_injective).union (P'.directRelated (m.rename f)).elems =
          (s.union (P.directRelated m).elems).map h.rename_injective := by
        rw [h.directRelated]
        exact EntitySet.union_map h.rename_injective s _
      rw [List.map_cons, List.foldl_cons, List.foldl_cons, hunion, ih]

private theorem outside (h : Renamed f P P') (e : Entity) (contents : List Entity)
    (s : EntitySet) :
    P'.outside (e.rename f) (contents.map (Entity.rename f)) (s.map h.rename_injective) =
      (P.outside e contents s).map h.rename_injective := by
  unfold Provider.outside
  rw [EntitySet.filter_map]
  intro x
  simp only [ne_eq, h.enclosingClass_eq_iff, h.rename_injective.eq_iff,
    List.mem_map_of_injective h.rename_injective]

theorem related (h : Renamed f P P') (e : Entity) :
    P'.related (e.rename f) = (P.related e).map h.rename_injective := by
  unfold Provider.related
  rw [h.descendants, h.directRelated, ← h.outside, ← h.union_directRelated]

theorem efferentCoupling (h : Renamed f P P') (e : Entity) :
    P'.efferentCoupling (e.rename f) = P.efferentCoupling e := by
  rw [Provider.efferentCoupling, h.related, EntitySet.size_map, Provider.efferentCoupling]

end Renamed

end Provider

end DesignCoupling
