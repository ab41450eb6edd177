import DesignCoupling.Search
import Mathlib.Logic.Relation

/-!
# What a search meets

A search meets exactly the points to which a path of fresh points leads from a pending one. When the
fresh points are closed under successors these are the points that can be reached at all, and when
one point is left out of them nothing but that point is lost: a path through it has a last visit.
-/

namespace DesignCoupling.Search

variable {α : Type} {next : α → List α} {fresh : List α}

/-- A path through fresh points only. -/
inductive FreshPath (next : α → List α) (fresh : List α) : α → α → Prop
  | here {a : α} (ha : a ∈ fresh) : FreshPath next fresh a a
  | step {a b x : α} (ha : a ∈ fresh) (hb : b ∈ next a) (path : FreshPath next fresh b x) :
      FreshPath next fresh a x

namespace FreshPath

theorem start_mem {a x : α} (path : FreshPath next fresh a x) : a ∈ fresh := by
  cases path with
  | here ha => exact ha
  | step ha _ _ => exact ha

theorem mono {fresh' : List α} (hsub : ∀ a ∈ fresh, a ∈ fresh') {a x : α}
    (path : FreshPath next fresh a x) : FreshPath next fresh' a x := by
  induction path with
  | here ha => exact .here (hsub _ ha)
  | step ha hb _ ih => exact .step (hsub _ ha) hb ih

theorem reflTransGen {a x : α} (path : FreshPath next fresh a x) :
    Relation.ReflTransGen (fun a b => b ∈ next a) a x := by
  induction path with
  | here _ => exact .refl
  | step _ hb _ ih => exact .head hb ih

theorem of_reflTransGen (hclosed : ∀ a, ∀ b ∈ next a, b ∈ fresh) {a x : α} (ha : a ∈ fresh)
    (hreach : Relation.ReflTransGen (fun a b => b ∈ next a) a x) : FreshPath next fresh a x := by
  induction hreach using Relation.ReflTransGen.head_induction_on with
  | refl => exact .here ha
  | head hb _ ih => exact .step ha hb (ih (hclosed _ _ hb))

variable [DecidableEq α]

theorem avoid {a b x : α} (path : FreshPath next fresh b x) (hx : x ≠ a) :
    FreshPath next (without fresh a) b x ∨
      ∃ c ∈ next a, FreshPath next (without fresh a) c x := by
  induction path with
  | here hb => exact .inl (.here (mem_without.2 ⟨hb, hx⟩))
  | @step b c _ hb hc _ ih =>
      rcases ih hx with hpath | hlast
      · -- a path that goes on without the point starts anew behind its last visit
        by_cases hba : b = a
        · exact .inr ⟨c, hba ▸ hc, hpath⟩
        · exact .inl (.step (mem_without.2 ⟨hb, hba⟩) hc hpath)
      · exact .inr hlast

end FreshPath

variable [DecidableEq α]

/-- The points met by a search are the ends of fresh paths from pending points. -/
theorem mem_walk_iff {pending : List α} {x : α} :
    x ∈ walk next fresh pending ↔ ∃ a ∈ pending, FreshPath next fresh a x := by
  -- along the recursion of the search: every new point splits the paths at their last visit to it
  fun_induction walk next fresh pending with
  | case1 => simp
  | case2 fresh a rest ha _ ih =>
      have hsub : ∀ b ∈ without fresh a, b ∈ fresh := fun b hb => (mem_without.1 hb).1
      rw [List.mem_cons, ih]
      constructor
      · intro h
        rcases h with rfl | ⟨b, hb, path⟩
        · exact ⟨x, List.mem_cons_self, .here ha⟩
        · rcases List.mem_append.1 hb with hb | hb
          · exact ⟨a, List.mem_cons_self, .step ha hb (path.mono hsub)⟩
          · exact ⟨b, List.mem_cons_of_mem a hb, path.mono hsub⟩
      · intro h
        rcases h with ⟨b, hb, path⟩
        by_cases hx : x = a
        · exact .inl hx
        · right
          rcases path.avoid hx with hpath | ⟨c, hc, hpath⟩
          · have hba : b ≠ a := (mem_without.1 hpath.start_mem).2
            have hrest : b ∈ rest := (List.mem_cons.1 hb).resolve_left hba
            exact ⟨b, List.mem_append_right _ hrest, hpath⟩
          · exact ⟨c, List.mem_append_left _ hc, hpath⟩
  | case3 fresh a rest ha ih =>
      rw [ih]
      constructor
      · intro h
        rcases h with ⟨b, hb, path⟩
        exact ⟨b, List.mem_cons_of_mem a hb, path⟩
      · intro h
        rcases h with ⟨b, hb, path⟩
        rcases List.mem_cons.1 hb with rfl | hb
        · exact absurd path.start_mem ha
        · exact ⟨b, hb, path⟩

theorem mem_walk_next_iff (hclosed : ∀ a, ∀ b ∈ next a, b ∈ fresh) {a x : α} :
    x ∈ walk next fresh (next a) ↔ Relation.TransGen (fun a b => b ∈ next a) a x := by
  rw [mem_walk_iff, Relation.TransGen.head'_iff]
  constructor
  · intro h
    rcases h with ⟨b, hb, path⟩
    exact ⟨b, hb, path.reflTransGen⟩
  · intro h
    rcases h with ⟨b, hb, hreach⟩
    exact ⟨b, hb, .of_reflTransGen hclosed (hclosed a b hb) hreach⟩

/-- Leaving out the point at which a search starts loses nothing but that point. -/
theorem mem_walk_without_iff (hclosed : ∀ a, ∀ b ∈ next a, b ∈ fresh) {a x : α} :
    x ∈ walk next (without fresh a) (next a) ↔
      x ≠ a ∧ Relation.TransGen (fun a b => b ∈ next a) a x := by
  constructor
  · intro hx
    refine ⟨(mem_without.1 (mem_fresh_of_mem_walk hx)).2, ?_⟩
    obtain ⟨b, hb, path⟩ := mem_walk_iff.1 hx
    exact .head' hb path.reflTransGen
  · intro h
    rcases h with ⟨hne, hreach⟩
    rw [mem_walk_iff]
    obtain ⟨b, hb, hrest⟩ := Relation.TransGen.head'_iff.1 hreach
    have path := FreshPath.of_reflTransGen hclosed (hclosed a b hb) hrest
    rcases path.avoid hne with hpath | hlast
    · exact ⟨b, hb, hpath⟩
    · exact hlast

end DesignCoupling.Search
