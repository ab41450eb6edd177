import DesignCoupling.Proofs.Design.Growth
import Mathlib.Data.List.Induction

/-!
# Replaying a history

The answers to the calls of a history are enough to tell the neighbours of every entity, without a
look at the design. What an entity uses are the targets of the usages that were linked for it, in
the order of the calls, and its children are the entities that were put into it and had not been
put anywhere before. Calls that were refused or repeated leave no trace.
-/

namespace DesignCoupling.Design

def transcript (d : Design) : List Call → List (Call × Reply)
  | [] => []
  | call :: calls => (call, (d.perform call).1) :: transcript (d.perform call).2 calls

def linkedUsage? : Call × Reply → Option Usage
  | (.addUsage source target, .linked true) => some ⟨source, target⟩
  | _ => none

/-- An entity and a container that it was put into. -/
structure Placement where
  parent : String
  child : String
  deriving DecidableEq, Repr

def acceptedPlacement? : Call × Reply → Option Placement
  | (.addContainment parent child, .contained) => some ⟨parent, child⟩
  | _ => none

/-- One placement more, unless its child has been placed before. -/
def addPlacement (ps : List Placement) (p : Placement) : List Placement :=
  if ∃ q ∈ ps, q.child = p.child then ps else ps ++ [p]

/-- For every child the first of its placements. -/
def firstPlacements (ps : List Placement) : List Placement := ps.foldl addPlacement []

/-- The usages that a history has linked, in order. -/
def usagesLinked (calls : List Call) : List Usage :=
  (empty.transcript calls).filterMap linkedUsage?

/-- The placements that a history has accepted, in order, with repetitions. -/
def placementsAccepted (calls : List Call) : List Placement :=
  (empty.transcript calls).filterMap acceptedPlacement?

theorem transcript_concat (d : Design) (calls : List Call) (call : Call) :
    d.transcript (calls ++ [call]) =
      d.transcript calls ++ [(call, ((d.performAll calls).perform call).1)] := by
  induction calls generalizing d with
  | nil => rfl
  | cons first calls ih =>
      rw [List.cons_append, transcript, transcript, ih, performAll_cons, List.cons_append]

private theorem filterMap_concat {α β : Type} (f : α → Option β) (xs : List α) (x : α) :
    (xs ++ [x]).filterMap f = xs.filterMap f ++ (f x).toList := by
  rw [List.filterMap_append]
  cases h : f x <;> simp [h]

theorem mem_addPlacement {ps : List Placement} {p : Placement} {name : String} :
    (∃ q ∈ addPlacement ps p, q.child = name) ↔ (∃ q ∈ ps, q.child = name) ∨ p.child = name := by
  unfold addPlacement
  split
  · next hplaced =>
      constructor
      · exact .inl
      · intro h
        rcases h with h | rfl
        · exact h
        · exact hplaced
  · simp only [List.mem_append, List.mem_singleton, or_and_right, exists_or, exists_eq_left]

theorem mem_firstPlacements {ps : List Placement} {name : String} :
    (∃ p ∈ firstPlacements ps, p.child = name) ↔ ∃ p ∈ ps, p.child = name := by
  unfold firstPlacements
  suffices h : ∀ kept : List Placement, (∃ p ∈ ps.foldl addPlacement kept, p.child = name) ↔
      (∃ p ∈ kept, p.child = name) ∨ ∃ p ∈ ps, p.child = name by
    simpa using h []
  induction ps with
  | nil => simp
  | cons p ps ih =>
      intro kept
      rw [List.foldl_cons, ih, mem_addPlacement, or_assoc]
      simp only [List.mem_cons, exists_eq_or_imp]

/-- The container that the entity of a name stands in. -/
def containerOf (d : Design) (name : String) : Option String := (d.get? name).bind Entity.parent

variable {d : Design}

theorem containerOf_eq {name : String} {i : Nat} (hi : d.indexOf? name = some i) :
    d.containerOf name = d.entities[i]?.bind Entity.parent := by
  rw [containerOf, get?, hi, Option.bind_some]

theorem containerOf_eq_none {name : String} (hname : d.indexOf? name = none) :
    d.containerOf name = none := by
  rw [containerOf, get?, hname, Option.bind_none, Option.bind_none]

namespace Consistent

theorem containerOf_withEntity (hd : d.Consistent) {name : String}
    (hname : d.indexOf? name = none) (kind : EntityKind) (n : String) :
    (d.withEntity name kind).containerOf n = d.containerOf n := by
  by_cases hn : name = n
  · subst hn
    have hindex : (d.withEntity name kind).indexOf? name = some d.entities.size := by simp
    rw [containerOf_eq hindex, containerOf_eq_none hname]
    simp
  · have hindex : (d.withEntity name kind).indexOf? n = d.indexOf? n := by simp [hn]
    cases hi : d.indexOf? n with
    | none => rw [containerOf_eq_none (hindex.trans hi), containerOf_eq_none hi]
    | some i =>
        have hold : i ≠ d.entities.size := Nat.ne_of_lt (hd.lt_size hi)
        rw [containerOf_eq (hindex.trans hi), containerOf_eq hi,
          getElem?_entities_withEntity, if_neg hold]

theorem containerOf_withContainment (hd : d.Consistent) {child : String} {c : Nat}
    (hc : d.indexOf? child = some c) (p : Nat) (parent n : String) :
    (d.withContainment p c parent).containerOf n =
      if child = n then some parent else d.containerOf n := by
  have hindex := indexOf?_withContainment (d := d) p c parent n
  split
  · next hn =>
      subst hn
      obtain ⟨e, he, _⟩ := hd.index.1 hc
      rw [containerOf_eq (hindex.trans hc), getElem?_entities_withContainment, if_pos rfl, he]
      rfl
  · next hn =>
      cases hi : d.indexOf? n with
      | none => rw [containerOf_eq_none (hindex.trans hi), containerOf_eq_none hi]
      | some i =>
          have hother : c ≠ i := fun heq => hn (hd.indexOf?_inj hc (heq ▸ hi))
          rw [containerOf_eq (hindex.trans hi), containerOf_eq hi,
            getElem?_entities_withContainment, if_neg hother]

end Consistent

/-- The neighbours of every name are told by these usages and placements, and so is which entities
have been put into a container. -/
structure Replays (d : Design) (us : List Usage) (ps : List Placement) : Prop where
  consistent : d.Consistent
  used : ∀ name,
    d.outgoing .uses name = (us.filter fun u => u.source = name).map Usage.target
  users : ∀ name,
    d.incoming .uses name = (us.filter fun u => u.target = name).map Usage.source
  contents : ∀ name,
    d.outgoing .contains name = (ps.filter fun p => p.parent = name).map Placement.child
  count : d.usageCount = us.length
  placed : ∀ name, d.containerOf name ≠ none ↔ ∃ p ∈ ps, p.child = name

namespace Replays

variable {us : List Usage} {ps : List Placement}

theorem empty : Replays Design.empty [] [] where
  consistent := .empty
  used _ := rfl
  users _ := rfl
  contents _ := rfl
  count := rfl
  placed := by simp [containerOf, get?, indexOf?, Design.empty]

theorem withEntity (h : Replays d us ps) {name : String} (hname : d.indexOf? name = none)
    (kind : EntityKind) : Replays (d.withEntity name kind) us ps where
  consistent := h.consistent.withEntity hname kind
  used n := by rw [h.consistent.outgoing_withEntity hname, h.used]
  users n := by rw [h.consistent.incoming_withEntity hname, h.users]
  contents n := by rw [h.consistent.outgoing_withEntity hname, h.contents]
  count := h.count
  placed n := by rw [h.consistent.containerOf_withEntity hname, h.placed]

theorem withContainment (h : Replays d us ps) {parent child : String} {p c : Nat}
    (hne : parent ≠ child) (hp : d.indexOf? parent = some p) (hc : d.indexOf? child = some c)
    (hfree : d.entities[c]?.bind Entity.parent = none) :
    Replays (d.withContainment p c parent) us (ps ++ [⟨parent, child⟩]) where
  consistent := h.consistent.withContainment hp hc hne hfree
  used n := by
    rw [h.consistent.outgoing_withContainment hp hc, h.used]
    simp
  users n := by
    rw [h.consistent.incoming_withContainment hp hc, h.users]
    simp
  contents n := by
    rw [h.consistent.outgoing_withContainment hp hc, h.contents, map_filter_concat]
    simp
  count := by rw [usageCount_withContainment, h.count]
  placed n := by
    rw [h.consistent.containerOf_withContainment hc]
    by_cases hn : child = n
    · simp [hn]
    · simp [hn, h.placed]

theorem link_uses (h : Replays d us ps) {source target : String} {s t : Nat}
    (hs : d.indexOf? source = some s) (ht : d.indexOf? target = some t) :
    Replays (d.link .uses s t) (us ++ [⟨source, target⟩]) ps where
  consistent := h.consistent.link_uses hs ht
  used n := by
    rw [h.consistent.outgoing_link hs ht, h.used, map_filter_concat]
    simp
  users n := by
    rw [h.consistent.incoming_link hs ht, h.users, map_filter_concat]
    simp
  contents n := by
    rw [h.consistent.outgoing_link hs ht, h.contents]
    simp
  count := by rw [usageCount_link_uses, h.count, List.length_append, List.length_singleton]
  placed := h.placed

theorem of_answers (h : Replays d us ps) {call : Call} {reply : Reply} {d' : Design}
    (hanswers : Answers d call reply d') :
    Replays d' (us ++ (linkedUsage? (call, reply)).toList)
      ((acceptedPlacement? (call, reply)).toList.foldl addPlacement ps) := by
  cases hanswers with
  | known => simpa [linkedUsage?, acceptedPlacement?] using h
  | declared hname => simpa [linkedUsage?, acceptedPlacement?] using h.withEntity hname _
  | refused => simpa [linkedUsage?, acceptedPlacement?] using h
  | @held parent child c hc hparent =>
      have hplaced : ∃ q ∈ ps, q.child = child := by
        rw [← h.placed, containerOf_eq hc, hparent]
        exact Option.some_ne_none parent
      simpa [linkedUsage?, acceptedPlacement?, addPlacement, hplaced] using h
  | @placed parent child p c hne hp hc hfree =>
      have hnew : ¬ ∃ q ∈ ps, q.child = child := by
        rw [← h.placed, containerOf_eq hc, hfree]
        exact not_not.2 rfl
      simpa [linkedUsage?, acceptedPlacement?, addPlacement, hnew] using
        h.withContainment hne hp hc hfree
  | ignored => simpa [linkedUsage?, acceptedPlacement?] using h
  | linked hs ht => simpa [linkedUsage?, acceptedPlacement?] using h.link_uses hs ht

/-- The design that a history builds is replayed from the answers. -/
theorem ofCalls (calls : List Call) :
    Replays (Design.ofCalls calls) (usagesLinked calls)
      (firstPlacements (placementsAccepted calls)) := by
  induction calls using List.reverseRecOn with
  | nil => exact .empty
  | append_singleton calls call ih =>
      have hnext := ih.of_answers (perform_answers (Design.ofCalls calls) call)
      rw [Design.ofCalls, performAll_append, usagesLinked, placementsAccepted, transcript_concat,
        filterMap_concat, filterMap_concat, firstPlacements, List.foldl_append]
      exact hnext

end Replays

theorem count_target_filter (us : List Usage) (a b : String) :
    ((us.filter fun u => u.source = a).map Usage.target).count b = us.count ⟨a, b⟩ := by
  rw [List.count, List.countP_map, List.countP_filter]
  apply List.countP_congr
  intro u _
  cases u
  simp [and_comm]

theorem count_source_filter (us : List Usage) (a b : String) :
    ((us.filter fun u => u.target = b).map Usage.source).count a = us.count ⟨a, b⟩ := by
  rw [List.count, List.countP_map, List.countP_filter]
  apply List.countP_congr
  intro u _
  cases u
  simp

theorem Consistent.count_name (hd : d.Consistent) {es : List Entity} {y : Entity}
    (hes : ∀ e ∈ es, e ∈ d.entities) (hy : y ∈ d.entities) :
    (es.map Entity.name).count y.name = es.count y := by
  rw [List.count, List.countP_map, List.count]
  apply List.countP_congr
  intro e he
  simp only [Function.comp_apply, beq_iff_eq]
  constructor
  · exact hd.eq_of_name_eq (hes e he) hy
  · exact congrArg Entity.name

/-- The neighbours of every entity replay the history: it uses the targets of the usages linked for
it and is used by the sources of those linked to it, in the order of the calls, and its children are
those whose first accepted placement was into it. A placement is the first for a child exactly if it
finds the child without a container. Usages are counted by the calls that linked them, and between
two entities there are as many seen from either end. -/
theorem neighbours_ofCalls (calls : List Call) {d : Design} (hd : ofCalls calls = d) :
    (∀ x, (d.provider.usedBy x).map Entity.name =
      ((usagesLinked calls).filter fun u => u.source = x.name).map Usage.target) ∧
    (∀ x, (d.provider.usersOf x).map Entity.name =
      ((usagesLinked calls).filter fun u => u.target = x.name).map Usage.source) ∧
    (∀ x, (d.provider.children x).map Entity.name =
      ((firstPlacements (placementsAccepted calls)).filter fun p => p.parent = x.name).map
        Placement.child) ∧
    (∀ parent child d', d.addContainment parent child = .ok d' →
      (d.containerOf child = none ↔ ∀ p ∈ placementsAccepted calls, p.child ≠ child) ∧
      d'.containerOf child = some parent) ∧
    d.usageCount = (usagesLinked calls).length ∧
    ∀ x ∈ d.entities, ∀ y ∈ d.entities,
      (d.provider.usedBy x).count y = (d.provider.usersOf y).count x := by
  have h : Replays d (usagesLinked calls) (firstPlacements (placementsAccepted calls)) :=
    hd ▸ .ofCalls calls
  refine ⟨fun x => h.used x.name, fun x => h.users x.name, fun x => h.contents x.name, ?_,
    h.count, ?_⟩
  · intro parent child d' hplaced
    constructor
    · rw [← not_iff_not, ← ne_eq, h.placed, mem_firstPlacements]
      simp only [ne_eq, not_forall, not_not, exists_prop]
    · obtain ⟨_, p, c, _, hc, ⟨hparent, rfl⟩ | ⟨_, rfl⟩⟩ := addContainment_eq_ok_iff.1 hplaced
      · rw [containerOf_eq hc, hparent]
      · rw [h.consistent.containerOf_withContainment hc, if_pos rfl]
  · intro x hx y hy
    rw [← h.consistent.count_name (fun _ => mem_of_usedBy) hy,
      ← h.consistent.count_name (fun _ => mem_of_usersOf) hx]
    calc ((d.provider.usedBy x).map Entity.name).count y.name
        = (usagesLinked calls).count ⟨x.name, y.name⟩ := by
          rw [show (d.provider.usedBy x).map Entity.name = _ from h.used x.name,
            count_target_filter]
      _ = ((d.provider.usersOf y).map Entity.name).count x.name := by
          rw [show (d.provider.usersOf y).map Entity.name = _ from h.users y.name,
            count_source_filter]

/-- Calls that come too early are made again, and some are repeated or refused. -/
def retriedCalls : List Call :=
  [.addUsage "a" "m", .addEntity "a" .classDecl, .addContainment "a" "m", .addEntity "m" .method,
    .addUsage "a" "m", .addContainment "a" "m", .addUsage "m" "m", .addEntity "p" .package,
    .addContainment "a" "m", .addContainment "p" "m", .addUsage "a" "m", .addUsage "m" "x"]

/-- The class uses its method twice and contains it once, and the method also uses itself. -/
theorem neighbours_retriedCalls :
    ∃ d a m p, ofCalls retriedCalls = d ∧ d.entities = #[a, m, p] ∧
      (d.provider.usedBy a).map Entity.name = ["m", "m"] ∧
      (d.provider.usersOf m).map Entity.name = ["a", "m", "a"] ∧
      (d.provider.children a).map Entity.name = ["m"] ∧ d.usageCount = 3 ∧
      (∃ d', d.addContainment "a" "m" = .ok d' ∧ d.containerOf "m" ≠ none ∧
        d'.containerOf "m" = some "a") ∧
      (d.provider.usedBy a).count m = (d.provider.usersOf m).count a := by
  let a : Entity := ⟨"a", .classDecl, none⟩
  let m : Entity := ⟨"m", .method, some "a"⟩
  let p : Entity := ⟨"p", .package, none⟩
  have hentities : (ofCalls retriedCalls).entities = #[a, m, p] := rfl
  have husages : usagesLinked retriedCalls = [⟨"a", "m"⟩, ⟨"m", "m"⟩, ⟨"a", "m"⟩] := rfl
  have hplacements : placementsAccepted retriedCalls = [⟨"a", "m"⟩, ⟨"a", "m"⟩] := rfl
  have ha : a ∈ (ofCalls retriedCalls).entities := by rw [hentities]; simp
  have hm : m ∈ (ofCalls retriedCalls).entities := by rw [hentities]; simp
  have hagain : (ofCalls retriedCalls).addContainment "a" "m" = .ok (ofCalls retriedCalls) := rfl
  obtain ⟨hused, husers, hchildren, hplaced, hcount, hsame⟩ := neighbours_ofCalls retriedCalls rfl
  obtain ⟨hfirst, hcontainer⟩ := hplaced "a" "m" _ hagain
  refine ⟨_, a, m, p, rfl, hentities, ?_, ?_, ?_, ?_, ⟨_, hagain, ?_, hcontainer⟩,
    hsame a ha m hm⟩
  · rw [hused, husages]; decide
  · rw [husers, husages]; decide
  · rw [hchildren, hplacements]; decide
  · rw [hcount, husages]; rfl
  · rw [ne_eq, hfirst, hplacements]; decide

end DesignCoupling.Design
