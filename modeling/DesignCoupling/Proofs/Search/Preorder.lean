import DesignCoupling.Proofs.Coupling.Aggregation

/-!
# The order of a search

The search is a loop over one list of pending points. A point may be pending more than once, and
whether it has been met is asked only when its turn comes. All the same the loop lists the points as
a recursive search does that goes through the successors of each new point before it goes on: what
is pending behind the successors is what the recursion still has to return to.
-/

namespace DesignCoupling

namespace Search

variable {α : Type} {next : α → List α} {start : α}

/-- The recursive search through some points in their order, from the points met before it to those
met after it. It passes over the start and what has been met, and goes through the successors of any
other point in the same way before it goes on. -/
inductive Preorder (next : α → List α) (start : α) : List α → List α → List α → Prop
  | done {met : List α} : Preorder next start met [] met
  | skip {met rest out : List α} {a : α} (ha : a = start ∨ a ∈ met)
      (hrest : Preorder next start met rest out) : Preorder next start met (a :: rest) out
  | meet {met rest inner out : List α} {a : α} (ha : ¬ (a = start ∨ a ∈ met))
      (hinner : Preorder next start (met ++ [a]) (next a) inner)
      (hrest : Preorder next start inner rest out) : Preorder next start met (a :: rest) out

/-- Where the loop stands: the points that it has met, and those that are pending. -/
structure Progress (α : Type) where
  met : List α
  pending : List α

/-- One turn of the loop. The start and what has been met are dropped; any other point is met, and
its successors are pending before all else. -/
def turn [DecidableEq α] (next : α → List α) (start : α) : Progress α → Option (Progress α)
  | ⟨_, []⟩ => none
  | ⟨met, a :: rest⟩ =>
      if a = start ∨ a ∈ met then some ⟨met, rest⟩ else some ⟨met ++ [a], next a ++ rest⟩

/-- The loop goes from one state to another in some number of turns. -/
def Turns [DecidableEq α] (next : α → List α) (start : α) : Progress α → Progress α → Prop :=
  Relation.ReflTransGen fun s t => turn next start s = some t

/-- The fresh points are those that are neither the start nor met. -/
def Unmet (points fresh : List α) (start : α) (met : List α) : Prop :=
  ∀ x ∈ points, x ∈ fresh ↔ ¬ (x = start ∨ x ∈ met)

namespace Preorder

theorem unique {met items out out' : List α} (h : Preorder next start met items out)
    (h' : Preorder next start met items out') : out = out' := by
  induction h generalizing out' with
  | done =>
      cases h' with
      | done => rfl
  | skip ha _ ih =>
      cases h' with
      | skip _ hrest' => exact ih hrest'
      | meet ha' _ _ => exact absurd ha ha'
  | meet ha _ _ ihinner ihrest =>
      cases h' with
      | skip ha' _ => exact absurd ha' ha
      | meet _ hinner' hrest' =>
          obtain rfl := ihinner hinner'
          exact ihrest hrest'

theorem exists_of_append {met xs ys out : List α} (h : Preorder next start met (xs ++ ys) out) :
    ∃ mid, Preorder next start met xs mid ∧ Preorder next start mid ys out := by
  induction xs generalizing met with
  | nil => exact ⟨met, .done, h⟩
  | cons x xs ih =>
      cases h with
      | skip hx hrest =>
          obtain ⟨mid, hxs, hys⟩ := ih hrest
          exact ⟨mid, .skip hx hxs, hys⟩
      | meet hx hinner hrest =>
          obtain ⟨mid, hxs, hys⟩ := ih hrest
          exact ⟨mid, .meet hx hinner hxs, hys⟩

/-- The loop does what the recursive search does, and leaves alone what is pending behind. -/
theorem turns [DecidableEq α] {met items out : List α} (h : Preorder next start met items out)
    (behind : List α) : Turns next start ⟨met, items ++ behind⟩ ⟨out, behind⟩ := by
  induction h generalizing behind with
  | done => exact .refl
  | @skip met rest out a ha _ ih =>
      have hturn : turn next start ⟨met, a :: (rest ++ behind)⟩ = some ⟨met, rest ++ behind⟩ :=
        if_pos ha
      exact .head hturn (ih behind)
  | @meet met rest inner out a ha _ _ ihinner ihrest =>
      have hturn : turn next start ⟨met, a :: (rest ++ behind)⟩ =
          some ⟨met ++ [a], next a ++ (rest ++ behind)⟩ := if_neg ha
      exact .head hturn ((ihinner (rest ++ behind)).trans (ihrest behind))

end Preorder

variable [DecidableEq α]

theorem Unmet.without {points fresh met : List α} (h : Unmet points fresh start met) (a : α) :
    Unmet points (without fresh a) start (met ++ [a]) := by
  intro x hx
  rw [mem_without, h x hx, List.mem_append, List.mem_singleton, ← or_assoc, not_or (q := x = a)]

/-- Among points closed under successors, a search over the fresh ones is the recursive search. -/
theorem preorder_walk {points : List α} (hclosed : ∀ a, ∀ b ∈ next a, b ∈ points)
    {fresh pending met : List α} (hpending : ∀ a ∈ pending, a ∈ points)
    (hfresh : Unmet points fresh start met) :
    Preorder next start met pending (met ++ walk next fresh pending) := by
  -- along the recursion of the search: what it has pending splits into the successors of a new
  -- point and the rest, and so does the recursive search
  fun_induction walk next fresh pending generalizing met with
  | case1 fresh => exact (List.append_nil met).symm ▸ .done
  | case2 fresh a rest ha _ ih =>
      have hnew := (hfresh a (hpending a List.mem_cons_self)).1 ha
      have hnext : ∀ b ∈ next a ++ rest, b ∈ points := by
        intro b hb
        rcases List.mem_append.1 hb with hb | hb
        · exact hclosed a b hb
        · exact hpending b (List.mem_cons_of_mem a hb)
      obtain ⟨inner, hinner, hrest⟩ := (ih hnext (hfresh.without a)).exists_of_append
      rw [List.append_assoc, List.singleton_append] at hrest
      exact .meet hnew hinner hrest
  | case3 fresh a rest ha ih =>
      have hold : a = start ∨ a ∈ met := by
        by_contra hnew
        exact ha ((hfresh a (hpending a List.mem_cons_self)).2 hnew)
      exact .skip hold (ih (fun b hb => hpending b (List.mem_cons_of_mem a hb)) hfresh)

end Search

namespace Provider

open Search

variable {P : Provider}

theorem preorder_descendants (P : Provider) (e : Entity) :
    Preorder P.children e [] (P.children e) (P.descendants e) := by
  have hfresh : Unmet P.entities (without P.entities e) e [] := by
    intro x hx
    simp [hx]
  exact preorder_walk (fun _ _ => P.mem_of_children) (fun _ => P.mem_of_children) hfresh

/-- Whatever the children of the entities are, the contents of an entity are listed by the recursive
search from its children, and by that list only: the loop, which starts with the children pending
and nothing met, comes to an end with the same list. It holds every entity but the first that can be
reached by one child after the other, each once. -/
theorem descendants_in_preorder (P : Provider) (e : Entity) :
    (∀ out, Preorder P.children e [] (P.children e) out ↔ out = P.descendants e) ∧
    Turns P.children e ⟨[], P.children e⟩ ⟨P.descendants e, []⟩ ∧
    (P.descendants e).Nodup ∧ e ∉ P.descendants e ∧
    ∀ x, x ∈ P.descendants e ↔ x ≠ e ∧ Relation.TransGen (fun a b => b ∈ P.children a) e x := by
  have horder := preorder_descendants P e
  have hturns := horder.turns []
  rw [List.append_nil] at hturns
  refine ⟨fun out => ⟨fun h => h.unique horder, fun h => h ▸ horder⟩, hturns,
    P.nodup_descendants e, fun h => (P.mem_descendants h).2 rfl, fun x => mem_descendants_iff⟩

/-- Children that are shared, that come back to the start and that are their own. -/
example :
    let t : NeighbourTables := {
      entities := [⟨"a", .package, none⟩, ⟨"b", .classDecl, none⟩, ⟨"c", .classDecl, none⟩,
        ⟨"d", .method, none⟩]
      usedBy := fun _ => []
      usersOf := fun _ => []
      children := fun name =>
        if name = "a" then ["c", "a", "b", "c"]
        else if name = "c" then ["d", "a", "c"]
        else if name = "d" then ["b", "d"]
        else ["c"] }
    (t.provider.descendants ⟨"a", .package, none⟩).map Entity.name = ["c", "d", "b"] := by
  cbv

end Provider

end DesignCoupling
