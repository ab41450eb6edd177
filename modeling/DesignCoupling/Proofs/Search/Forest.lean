import DesignCoupling.Proofs.Search.Preorder
import DesignCoupling.Proofs.Search.Reach
import Mathlib.Data.List.Nodup

/-!
# Searches in a forest

Where every point has at most one predecessor and no point can be reached from itself, nothing is
met twice. The search from a point then lists each of its successors with all that lies below, one
after the other, and its loop never comes to a point that it has to pass over.
-/

namespace DesignCoupling.Search

variable {α : Type} {next : α → List α} {points : List α}

/-- Among these points, successors are not repeated and not shared, and none lies below itself. -/
structure Forest (next : α → List α) (points : List α) : Prop where
  closed : ∀ a, ∀ b ∈ next a, b ∈ points
  distinct : ∀ a ∈ points, (next a).Nodup
  apart : ∀ a ∈ points, ∀ b ∈ points, ∀ c, c ∈ next a → c ∈ next b → a = b
  acyclic : ∀ a ∈ points, ¬ Relation.TransGen (fun a b => b ∈ next a) a a

namespace Forest

theorem mem_of_reach (h : Forest next points) {a x : α} (ha : a ∈ points)
    (hax : Relation.ReflTransGen (fun a b => b ∈ next a) a x) : x ∈ points := by
  cases hax with
  | refl => exact ha
  | tail _ hx => exact h.closed _ _ hx

theorem comparable (h : Forest next points) {a b x : α} (ha : a ∈ points) (hb : b ∈ points)
    (hax : Relation.ReflTransGen (fun a b => b ∈ next a) a x)
    (hbx : Relation.ReflTransGen (fun a b => b ∈ next a) b x) :
    Relation.ReflTransGen (fun a b => b ∈ next a) a b ∨
      Relation.ReflTransGen (fun a b => b ∈ next a) b a := by
  induction hax with
  | refl => exact .inr hbx
  | @tail y x hay hx ih =>
      cases hbx with
      | refl => exact .inl (hay.tail hx)
      | @tail z _ hbz hx' =>
          have hyz := h.apart y (h.mem_of_reach ha hay) z (h.mem_of_reach hb hbz) x hx hx'
          exact ih (hyz ▸ hbz)

theorem eq_of_reach_sibling (h : Forest next points) {a b c : α} (ha : a ∈ points)
    (hb : b ∈ next a) (hc : c ∈ next a)
    (hbc : Relation.ReflTransGen (fun a b => b ∈ next a) b c) : b = c := by
  rcases Relation.reflTransGen_iff_eq_or_transGen.1 hbc with heq | hbelow
  · exact heq.symm
  · obtain ⟨y, hby, hcy⟩ := Relation.TransGen.tail'_iff.1 hbelow
    have hya := h.apart y (h.mem_of_reach (h.closed a b hb) hby) a ha c hcy hc
    exact absurd (.head' hb (hya ▸ hby)) (h.acyclic a ha)

theorem eq_of_reach_both (h : Forest next points) {a b c x : α} (ha : a ∈ points)
    (hb : b ∈ next a) (hc : c ∈ next a)
    (hbx : Relation.ReflTransGen (fun a b => b ∈ next a) b x)
    (hcx : Relation.ReflTransGen (fun a b => b ∈ next a) c x) : b = c := by
  rcases h.comparable (h.closed a b hb) (h.closed a c hc) hbx hcx with hbc | hcb
  · exact h.eq_of_reach_sibling ha hb hc hbc
  · exact (h.eq_of_reach_sibling ha hc hb hcb).symm

end Forest

variable [DecidableEq α]

/-- All that a search from the successors of a point meets. -/
def listing (next : α → List α) (points : List α) (a : α) : List α :=
  walk next (without points a) (next a)

theorem walk_append (fresh xs ys : List α) :
    walk next fresh (xs ++ ys) =
      walk next fresh xs ++ walk next (fresh.filter fun x => x ∉ walk next fresh xs) ys := by
  fun_induction walk next fresh xs with
  | case1 fresh =>
      have hall : (fresh.filter fun x => x ∉ ([] : List α)) = fresh := List.filter_eq_self.2 (by simp)
      rw [List.nil_append, List.nil_append, hall]
  | case2 fresh a rest ha _ ih =>
      have hleft (met : List α) : (fresh.filter fun x => x ∉ a :: met) =
          (without fresh a).filter fun x => x ∉ met := by
        rw [without, List.filter_filter]
        apply List.filter_congr
        intro x _
        simp [Bool.and_comm]
      rw [List.cons_append, walk_cons_of_mem ha, ← List.append_assoc, ih, hleft, List.cons_append]
  | case3 fresh a rest ha ih => rw [List.cons_append, walk_cons_of_not_mem ha, ih]

theorem walk_congr {fresh fresh' pending : List α}
    (h : ∀ a ∈ pending, ∀ x, Relation.ReflTransGen (fun a b => b ∈ next a) a x →
      (x ∈ fresh ↔ x ∈ fresh')) :
    walk next fresh pending = walk next fresh' pending := by
  fun_induction walk next fresh pending generalizing fresh' with
  | case1 fresh => rw [walk_nil]
  | case2 fresh a rest ha _ ih =>
      have ha' : a ∈ fresh' := (h a List.mem_cons_self a .refl).1 ha
      rw [walk_cons_of_mem ha', ih]
      intro b hb x hbx
      rw [mem_without, mem_without]
      apply and_congr_left
      intro _
      rcases List.mem_append.1 hb with hb | hb
      · exact h a List.mem_cons_self x (.head hb hbx)
      · exact h b (List.mem_cons_of_mem a hb) x hbx
  | case3 fresh a rest ha ih =>
      have ha' : a ∉ fresh' := mt (h a List.mem_cons_self a .refl).2 ha
      rw [walk_cons_of_not_mem ha', ih]
      exact fun b hb => h b (List.mem_cons_of_mem a hb)

theorem reach_of_mem_walk {fresh pending : List α} {x : α} (h : x ∈ walk next fresh pending) :
    ∃ a ∈ pending, Relation.ReflTransGen (fun a b => b ∈ next a) a x := by
  obtain ⟨a, ha, path⟩ := mem_walk_iff.1 h
  exact ⟨a, ha, path.reflTransGen⟩

namespace Forest

theorem walk_singleton (h : Forest next points) {fresh : List α} {b : α}
    (hfresh : ∀ x, Relation.ReflTransGen (fun a b => b ∈ next a) b x → x ∈ fresh) :
    walk next fresh [b] = b :: listing next points b := by
  rw [walk_cons_of_mem (hfresh b .refl), List.append_nil, listing]
  congr 1
  apply walk_congr
  intro c hc x hcx
  have hx : x ∈ points := h.mem_of_reach (h.closed b c hc) hcx
  simp only [mem_without, hfresh x (.head hc hcx), hx]

/-- Successors are searched one after the other, as none of them uses up what another needs. -/
private theorem walk_siblings (h : Forest next points) {a : α} (ha : a ∈ points)
    {fresh bs : List α} (hbs : ∀ b ∈ bs, b ∈ next a) (hdistinct : bs.Nodup)
    (hfresh : ∀ b ∈ bs, ∀ x, Relation.ReflTransGen (fun a b => b ∈ next a) b x → x ∈ fresh) :
    walk next fresh bs = bs.flatMap fun b => b :: listing next points b := by
  induction bs generalizing fresh with
  | nil => simp
  | cons b bs ih =>
      obtain ⟨hb, hrest⟩ := List.nodup_cons.1 hdistinct
      have hmem : b ∈ next a := hbs b List.mem_cons_self
      rw [← List.singleton_append, walk_append, List.flatMap_append, List.flatMap_singleton,
        h.walk_singleton (hfresh b List.mem_cons_self)]
      congr 1
      apply ih (fun c hc => hbs c (List.mem_cons_of_mem b hc)) hrest
      intro c hc x hcx
      have hcmem : c ∈ next a := hbs c (List.mem_cons_of_mem b hc)
      rw [List.mem_filter, decide_eq_true_eq]
      refine ⟨hfresh c (List.mem_cons_of_mem b hc) x hcx, fun hx => ?_⟩
      rw [← h.walk_singleton (hfresh b List.mem_cons_self)] at hx
      obtain ⟨b', hb', hbx⟩ := reach_of_mem_walk hx
      obtain rfl := List.mem_singleton.1 hb'
      exact hb (h.eq_of_reach_both ha hmem hcmem hbx hcx ▸ hc)

/-- What lies below a point: its successors in order, each with what lies below it. -/
theorem listing_eq (h : Forest next points) {a : α} (ha : a ∈ points) :
    listing next points a = (next a).flatMap fun b => b :: listing next points b := by
  rw [listing]
  apply h.walk_siblings ha (fun b hb => hb) (h.distinct a ha)
  intro b hb x hbx
  refine mem_without.2 ⟨h.mem_of_reach (h.closed a b hb) hbx, ?_⟩
  rintro rfl
  exact h.acyclic x ha (.head' hb hbx)

end Forest

/-- What has been met, and what is pending with all that lies below it, make up the whole listing. -/
structure Remains (next : α → List α) (points : List α) (start : α) (s : Progress α) : Prop where
  pending : ∀ b ∈ s.pending, b ∈ points
  listing : s.met ++ s.pending.flatMap (fun b => b :: listing next points b) =
    Search.listing next points start

namespace Remains

variable {start : α} {s t : Progress α}

theorem unmet (h : Remains next points start s) {b : α} {rest : List α}
    (hs : s.pending = b :: rest) : ¬ (b = start ∨ b ∈ s.met) := by
  have hlisting := h.listing
  have hdistinct : (Search.listing next points start).Nodup := nodup_walk _ _ _
  rw [hs, List.flatMap_cons, List.cons_append] at hlisting
  rw [← hlisting, List.nodup_middle, List.nodup_cons] at hdistinct
  intro hold
  rcases hold with rfl | hmet
  · have hmem : b ∈ Search.listing next points b := by
      rw [← hlisting]
      exact List.mem_append_right _ List.mem_cons_self
    exact (mem_without.1 (mem_fresh_of_mem_walk hmem)).2 rfl
  · exact hdistinct.1 (List.mem_append_left _ hmet)

theorem turn (h : Remains next points start s) (hforest : Forest next points)
    (hturn : Search.turn next start s = some t) : Remains next points start t := by
  rcases s with ⟨met, _ | ⟨b, rest⟩⟩
  · simp [Search.turn] at hturn
  · rw [Search.turn, if_neg (h.unmet rfl)] at hturn
    obtain rfl := Option.some.inj hturn
    have hb : b ∈ points := h.pending b List.mem_cons_self
    refine ⟨fun c hc => ?_, ?_⟩
    · rcases List.mem_append.1 hc with hc | hc
      · exact hforest.closed b c hc
      · exact h.pending c (List.mem_cons_of_mem b hc)
    · rw [List.flatMap_append, ← hforest.listing_eq hb, ← h.listing, List.flatMap_cons,
        List.append_assoc, List.singleton_append, List.cons_append]

theorem turns (h : Remains next points start s) (hforest : Forest next points)
    (hturns : Turns next start s t) : Remains next points start t := by
  induction hturns with
  | refl => exact h
  | tail _ hturn ih => exact ih.turn hforest hturn

end Remains

/-- In a forest the loop passes over nothing. -/
theorem Forest.unmet_of_turns (h : Forest next points) {a b : α} {rest : List α} {s : Progress α}
    (ha : a ∈ points) (hturns : Turns next a ⟨[], next a⟩ s) (hs : s.pending = b :: rest) :
    ¬ (b = a ∨ b ∈ s.met) := by
  have hstart : Remains next points a ⟨[], next a⟩ :=
    ⟨fun b => h.closed a b, by rw [List.nil_append, h.listing_eq ha]⟩
  exact (hstart.turns h hturns).unmet hs

end DesignCoupling.Search
