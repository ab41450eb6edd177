/-!
# Depth-first search

The search keeps a list of the points it has not met. It goes through the pending points in order,
passes over those it has met, and puts the successors of a new point in front. Every new point uses
up a fresh one, so the search ends whatever the successors are.
-/

namespace DesignCoupling.Search

variable {α : Type} [DecidableEq α]

def without (fresh : List α) (a : α) : List α := fresh.filter fun x => x ≠ a

@[simp] theorem mem_without {fresh : List α} {a x : α} :
    x ∈ without fresh a ↔ x ∈ fresh ∧ x ≠ a := by
  simp [without]

theorem length_without_lt {fresh : List α} {a : α} (h : a ∈ fresh) :
    (without fresh a).length < fresh.length :=
  List.length_filter_lt_length_iff_exists.2 ⟨a, h, by simp⟩

/-- The fresh points met from the pending ones, in the order of the search. -/
def walk (next : α → List α) (fresh pending : List α) : List α :=
  match pending with
  | [] => []
  | a :: rest =>
      if h : a ∈ fresh then
        have := length_without_lt h
        a :: walk next (without fresh a) (next a ++ rest)
      else walk next fresh rest
termination_by (fresh.length, pending.length)

@[simp] theorem walk_nil (next : α → List α) (fresh : List α) : walk next fresh [] = [] := by
  rw [walk]

theorem walk_cons_of_mem {next : α → List α} {fresh rest : List α} {a : α} (h : a ∈ fresh) :
    walk next fresh (a :: rest) = a :: walk next (without fresh a) (next a ++ rest) := by
  rw [walk, dif_pos h]

theorem walk_cons_of_not_mem {next : α → List α} {fresh rest : List α} {a : α} (h : a ∉ fresh) :
    walk next fresh (a :: rest) = walk next fresh rest := by
  rw [walk, dif_neg h]

theorem mem_fresh_of_mem_walk {next : α → List α} {fresh pending : List α} {x : α}
    (h : x ∈ walk next fresh pending) : x ∈ fresh := by
  fun_induction walk next fresh pending with
  | case1 => simp at h
  | case2 fresh a rest ha _ ih =>
      rcases List.mem_cons.1 h with h | h
      · exact h ▸ ha
      · exact (mem_without.1 (ih h)).1
  | case3 fresh a rest _ ih => exact ih h

theorem nodup_walk (next : α → List α) (fresh pending : List α) :
    (walk next fresh pending).Nodup := by
  fun_induction walk next fresh pending with
  | case1 => exact List.nodup_nil
  | case2 fresh a rest _ _ ih =>
      refine List.nodup_cons.2 ⟨fun h => ?_, ih⟩
      exact (mem_without.1 (mem_fresh_of_mem_walk h)).2 rfl
  | case3 _ _ _ _ ih => exact ih

end DesignCoupling.Search
