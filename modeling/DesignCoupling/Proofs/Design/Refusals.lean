import DesignCoupling.Proofs.Design.Representation

/-!
# Refusals

Whether an entity is put into a container is asked in a fixed order: is it the container itself, are
the two known, does it stand elsewhere. A call that is refused leaves the design as it was, also when
the call is carried out step by step and whatever was written before a refusal stays written. So does
a call that repeats what is recorded. Anything else changes one entity and adds one link, or adds one
link alone.
-/

namespace DesignCoupling.Design

/-- Some entity has this name. -/
def Knows (d : Design) (name : String) : Prop := ∃ e ∈ d.entities, e.name = name

/-- Why an entity cannot be put into a container, in the order in which it is asked. -/
inductive Refuses (d : Design) (parent child : String) : Refusal → Prop
  | itself (hself : parent = child) : Refuses d parent child (.containsItself child)
  | noContainer (hne : parent ≠ child) (hparent : ¬ d.Knows parent) :
      Refuses d parent child (.notFound parent)
  | noEntity (hne : parent ≠ child) (hparent : d.Knows parent) (hchild : ¬ d.Knows child) :
      Refuses d parent child (.notFound child)
  | elsewhere {e : Entity} {current : String} (hne : parent ≠ child) (hparent : d.Knows parent)
      (he : e ∈ d.entities) (hname : e.name = child) (hcurrent : e.parent = some current)
      (hother : current ≠ parent) : Refuses d parent child (.otherParent child current parent)

/-- A design after the entity with number `c` has been put into the one with number `p`: it names
its container, one link stands behind the others, and nothing else is different. -/
structure Places (d after : Design) (p c : Nat) (parent : String) : Prop where
  index : after.index = d.index
  links : after.links.toList = d.links.toList ++ [⟨.contains, p, c⟩]
  child : after.entities[c]? = d.entities[c]?.map fun e => { e with parent := some parent }
  others : ∀ i, i ≠ c → after.entities[i]? = d.entities[i]?

/-- A change of a design that can be refused on the way. What has been written by then stays. -/
abbrev Change := EStateM Refusal Design

def findNumber (name : String) : Change Nat := do
  match (← get).indexOf? name with
  | some i => return i
  | none => throw (.notFound name)

/-- Puts an entity into a container. Its container is written before the link is added. -/
def contain (parent child : String) : Change Unit := do
  if parent = child then throw (.containsItself child)
  let p ← findNumber parent
  let c ← findNumber child
  match (← get).entities[c]?.bind Entity.parent with
  | some current =>
      if current = parent then return
      throw (.otherParent child current parent)
  | none =>
      modify fun d => d.setParent c parent
      modify fun d => d.link .contains p c

/-- What comes of a request to put one entity into another. -/
structure ContainmentOutcome (d : Design) (parent child : String) (reply : Reply)
    (after : Design) : Prop where
  refused : ∀ refusal, reply = .refused refusal ↔ d.Refuses parent child refusal
  contained : reply = .contained ↔ ∀ refusal, ¬ d.Refuses parent child refusal
  unchanged : reply ≠ .contained → after = d
  held : ∀ e ∈ d.entities, e.name = child → e.parent = some parent →
    reply = .contained ∧ after = d
  placed : ∀ p c, parent ≠ child → d.nameAt p = some parent → d.nameAt c = some child →
    d.entities[c]?.bind Entity.parent = none → reply = .contained ∧ d.Places after p c parent
  recorded : reply = .contained → ∃ p c, after.nameAt p = some parent ∧
    after.nameAt c = some child ∧ after.entities[c]?.bind Entity.parent = some parent ∧
    after.linksInto c = [⟨.contains, p, c⟩]
  again : reply = .contained →
    after.perform (.addContainment parent child) = (.contained, after)
  stopped : ∀ refusal, reply = .refused refusal →
    (contain parent child).run d = .error refusal after
  carriedOut : reply = .contained → (contain parent child).run d = .ok () after

/-- What comes of a request to record that one entity uses another. -/
structure UsageOutcome (d : Design) (source target : String) (reply : Reply) (after : Design) :
    Prop where
  answered : reply = .linked true ∨ reply = .linked false
  refused : reply = .linked false ↔ ¬ d.Knows source ∨ ¬ d.Knows target
  unchanged : reply = .linked false → after = d
  linked : ∀ s t, d.nameAt s = some source → d.nameAt t = some target →
    reply = .linked true ∧ after.entities = d.entities ∧ after.index = d.index ∧
      after.links.toList = d.links.toList ++ [⟨.uses, s, t⟩]

variable {d : Design}

theorem run_findNumber (d : Design) (name : String) :
    (findNumber name).run d =
      match d.indexOf? name with
      | some i => .ok i d
      | none => .error (.notFound name) d := by
  unfold findNumber
  cases h : d.indexOf? name with
  | none => simp [h]; rfl
  | some i => simp [h]

/-- Nothing has been written when a step is refused. -/
theorem run_contain (d : Design) (parent child : String) :
    (contain parent child).run d =
      match d.addContainment parent child with
      | .ok after => .ok () after
      | .error refusal => .error refusal d := by
  unfold contain addContainment
  by_cases hself : parent = child
  · simp [hself]
  cases hp : d.indexOf? parent with
  | none => simp [hself, hp, run_findNumber]
  | some p =>
      cases hc : d.indexOf? child with
      | none => simp [hself, hp, hc, run_findNumber]
      | some c =>
          cases hcurrent : d.entities[c]?.bind Entity.parent with
          | none => simp [hself, hp, hc, hcurrent, run_findNumber]
          | some current =>
              by_cases hsame : current = parent
              · simp [hself, hp, hc, hcurrent, hsame, run_findNumber]
              · simp [hself, hp, hc, hcurrent, hsame, run_findNumber]

theorem places_withContainment (p c : Nat) (parent : String) :
    d.Places (d.withContainment p c parent) p c parent where
  index := rfl
  links := by simp
  child := by simp
  others i hi := by simp [Ne.symm hi]

namespace Consistent

theorem knows_iff (hd : d.Consistent) {name : String} :
    d.Knows name ↔ ∃ i, d.indexOf? name = some i := by
  rw [hd.exists_indexOf?_iff, List.mem_map]
  simp only [Array.mem_toList_iff, Knows]

theorem indexOf?_eq_none_iff (hd : d.Consistent) {name : String} :
    d.indexOf? name = none ↔ ¬ d.Knows name := by
  rw [hd.knows_iff, ← Option.isSome_iff_exists, Option.not_isSome_iff_eq_none]

theorem indexOf?_of_nameAt (hd : d.Consistent) {name : String} {i : Nat}
    (h : d.nameAt i = some name) : d.indexOf? name = some i :=
  hd.index.2 (Option.map_eq_some_iff.1 h)

theorem bind_parent_eq (hd : d.Consistent) {e : Entity} {c : Nat} (he : e ∈ d.entities)
    (hc : d.indexOf? e.name = some c) : d.entities[c]?.bind Entity.parent = e.parent := by
  obtain ⟨r, hr, hname⟩ := hd.index.1 hc
  obtain rfl := hd.eq_of_name_eq (Array.mem_of_getElem? hr) he hname
  rw [hr, Option.bind_some]

theorem exists_linksInto_eq (hd : d.Consistent) {e : Entity} {parent : String} {c : Nat}
    (he : d.entities[c]? = some e) (hparent : e.parent = some parent) :
    ∃ p, d.nameAt p = some parent ∧ d.linksInto c = [⟨.contains, p, c⟩] := by
  obtain ⟨l, hlinks, hname⟩ := (hd.parent_eq_some_iff he).1 hparent
  obtain ⟨_, hkind, htarget⟩ := mem_linksInto.1 (hlinks ▸ List.mem_singleton_self l)
  exact ⟨l.source, hname, by rw [hlinks, ← hkind, ← htarget]⟩

theorem container_known (hd : d.Consistent) {e : Entity} {parent : String} (he : e ∈ d.entities)
    (hparent : e.parent = some parent) : parent ≠ e.name ∧ d.Knows parent := by
  obtain ⟨i, hi⟩ := Array.mem_iff_getElem?.1 he
  obtain ⟨p, hname, hlinks⟩ := hd.exists_linksInto_eq hi hparent
  have hlink : ⟨.contains, p, i⟩ ∈ d.links :=
    (mem_linksInto.1 (hlinks ▸ List.mem_singleton_self _)).1
  have hp := hd.indexOf?_of_nameAt hname
  refine ⟨?_, hd.knows_iff.2 ⟨p, hp⟩⟩
  rintro rfl
  exact hd.separate _ hlink rfl (Option.some.inj (hp.symm.trans (hd.indexOf?_getElem? hi)))

theorem addContainment_of_refuses (hd : d.Consistent) {parent child : String} {refusal : Refusal}
    (h : d.Refuses parent child refusal) : d.addContainment parent child = .error refusal := by
  unfold addContainment
  cases h with
  | itself hself => simp [hself]
  | noContainer hne hparent => simp [hne, hd.indexOf?_eq_none_iff.2 hparent]
  | noEntity hne hparent hchild =>
      obtain ⟨p, hp⟩ := hd.knows_iff.1 hparent
      simp [hne, hp, hd.indexOf?_eq_none_iff.2 hchild]
  | elsewhere hne hparent he hname hcurrent hother =>
      subst hname
      obtain ⟨p, hp⟩ := hd.knows_iff.1 hparent
      obtain ⟨c, hc⟩ := hd.knows_iff.1 ⟨_, he, rfl⟩
      have hholds := (hd.bind_parent_eq he hc).trans hcurrent
      simp [hne, hp, hc, hholds, hother]

theorem refuses_of_addContainment (hd : d.Consistent) {parent child : String} {refusal : Refusal}
    (h : d.addContainment parent child = .error refusal) : d.Refuses parent child refusal := by
  unfold addContainment at h
  by_cases hne : parent = child
  · rw [if_pos hne] at h
    cases h
    exact .itself hne
  rw [if_neg hne] at h
  cases hp : d.indexOf? parent with
  | none =>
      simp only [hp] at h
      cases h
      exact .noContainer hne (hd.indexOf?_eq_none_iff.1 hp)
  | some p =>
      have hparent := hd.knows_iff.2 ⟨p, hp⟩
      cases hc : d.indexOf? child with
      | none =>
          simp only [hp, hc] at h
          cases h
          exact .noEntity hne hparent (hd.indexOf?_eq_none_iff.1 hc)
      | some c =>
          obtain ⟨e, he, hname⟩ := hd.index.1 hc
          simp only [hp, hc, he, Option.bind_some] at h
          cases hcurrent : e.parent with
          | none => simp [hcurrent] at h
          | some current =>
              by_cases hother : current = parent
              · simp [hcurrent, hother] at h
              · simp only [hcurrent, if_neg hother] at h
                cases h
                exact .elsewhere hne hparent (Array.mem_of_getElem? he) hname hcurrent hother

theorem addContainment_eq_error_iff (hd : d.Consistent) {parent child : String}
    {refusal : Refusal} :
    d.addContainment parent child = .error refusal ↔ d.Refuses parent child refusal :=
  ⟨hd.refuses_of_addContainment, hd.addContainment_of_refuses⟩

theorem addContainment_of_held (hd : d.Consistent) {e : Entity} {parent : String}
    (he : e ∈ d.entities) (hparent : e.parent = some parent) :
    d.addContainment parent e.name = .ok d := by
  obtain ⟨hne, hknown⟩ := hd.container_known he hparent
  obtain ⟨p, hp⟩ := hd.knows_iff.1 hknown
  obtain ⟨c, hc⟩ := hd.knows_iff.1 ⟨e, he, rfl⟩
  exact addContainment_eq_ok_iff.2
    ⟨hne, p, c, hp, hc, .inl ⟨(hd.bind_parent_eq he hc).trans hparent, rfl⟩⟩

theorem addContainment_of_free (hd : d.Consistent) {parent child : String} {p c : Nat}
    (hne : parent ≠ child) (hp : d.nameAt p = some parent) (hc : d.nameAt c = some child)
    (hfree : d.entities[c]?.bind Entity.parent = none) :
    d.addContainment parent child = .ok (d.withContainment p c parent) :=
  addContainment_eq_ok_iff.2
    ⟨hne, p, c, hd.indexOf?_of_nameAt hp, hd.indexOf?_of_nameAt hc, .inr ⟨hfree, rfl⟩⟩

theorem stands_of_addContainment (hd : d.Consistent) {parent child : String} {after : Design}
    (h : d.addContainment parent child = .ok after) :
    ∃ (c : Nat) (e : Entity), after.entities[c]? = some e ∧ e.name = child ∧
      e.parent = some parent := by
  obtain ⟨_, p, c, _, hc, hafter⟩ := addContainment_eq_ok_iff.1 h
  obtain ⟨e, he, hname⟩ := hd.index.1 hc
  rcases hafter with ⟨hparent, rfl⟩ | ⟨_, rfl⟩
  · rw [he, Option.bind_some] at hparent
    exact ⟨c, e, he, hname, hparent⟩
  · exact ⟨c, { e with parent := some parent }, by simp [he], hname, rfl⟩

end Consistent

theorem perform_of_error {parent child : String} {refusal : Refusal}
    (h : d.addContainment parent child = .error refusal) :
    d.perform (.addContainment parent child) = (.refused refusal, d) := by
  simp [perform, h]

theorem perform_of_ok {parent child : String} {after : Design}
    (h : d.addContainment parent child = .ok after) :
    d.perform (.addContainment parent child) = (.contained, after) := by
  simp [perform, h]

namespace Consistent

theorem containmentOutcome_of_error (hd : d.Consistent) {parent child : String}
    {refusal : Refusal} (h : d.addContainment parent child = .error refusal) :
    d.ContainmentOutcome parent child (.refused refusal) d where
  refused r := by rw [← hd.addContainment_eq_error_iff, h, Reply.refused.injEq, Except.error.injEq]
  contained := by
    have hrefuses := hd.refuses_of_addContainment h
    exact ⟨fun hreply => by simp at hreply, fun hnone => absurd hrefuses (hnone refusal)⟩
  unchanged _ := rfl
  held e he hname hparent := by
    subst hname
    simp [hd.addContainment_of_held he hparent] at h
  placed p c hne hp hc hfree := by
    simp [hd.addContainment_of_free hne hp hc hfree] at h
  recorded hreply := by simp at hreply
  again hreply := by simp at hreply
  stopped r hreply := by
    rw [run_contain, h, Reply.refused.inj hreply]
  carriedOut hreply := by simp at hreply

theorem containmentOutcome_of_ok (hd : d.Consistent) {parent child : String} {after : Design}
    (h : d.addContainment parent child = .ok after) :
    d.ContainmentOutcome parent child .contained after := by
  have hafter : after.Consistent := by
    have hperform := hd.perform (.addContainment parent child)
    rwa [perform_of_ok h] at hperform
  obtain ⟨c, e, he, hname, hparent⟩ := hd.stands_of_addContainment h
  refine
    { refused := fun r => ?refused
      contained := ?contained
      unchanged := fun hreply => absurd rfl hreply
      held := ?held
      placed := ?placed
      recorded := fun _ => ?recorded
      again := fun _ => ?again
      stopped := fun _ hreply => by simp at hreply
      carriedOut := fun _ => by rw [run_contain, h] }
  case refused => rw [← hd.addContainment_eq_error_iff, h]; simp
  case contained => simp [← hd.addContainment_eq_error_iff, h]
  case held =>
    intro r hr hname hparent
    subst hname
    rw [hd.addContainment_of_held hr hparent] at h
    exact ⟨rfl, (Except.ok.inj h).symm⟩
  case placed =>
    intro p c hne hp hc hfree
    rw [hd.addContainment_of_free hne hp hc hfree] at h
    obtain rfl := Except.ok.inj h
    exact ⟨rfl, places_withContainment p c parent⟩
  case recorded =>
    obtain ⟨p, hp, hlinks⟩ := hafter.exists_linksInto_eq he hparent
    exact ⟨p, c, hp, by simp [nameAt, he, hname], by simp [he, hparent], hlinks⟩
  case again =>
    subst hname
    exact perform_of_ok (hafter.addContainment_of_held (Array.mem_of_getElem? he) hparent)

theorem containmentOutcome (hd : d.Consistent) (parent child : String) :
    d.ContainmentOutcome parent child (d.perform (.addContainment parent child)).1
      (d.perform (.addContainment parent child)).2 := by
  cases h : d.addContainment parent child with
  | error refusal =>
      rw [perform_of_error h]
      exact hd.containmentOutcome_of_error h
  | ok after =>
      rw [perform_of_ok h]
      exact hd.containmentOutcome_of_ok h

theorem addUsage_eq_none_iff (hd : d.Consistent) {source target : String} :
    d.addUsage source target = none ↔ ¬ d.Knows source ∨ ¬ d.Knows target := by
  rw [← hd.indexOf?_eq_none_iff, ← hd.indexOf?_eq_none_iff]
  unfold addUsage
  cases d.indexOf? source <;> cases d.indexOf? target <;> simp

theorem addUsage_of_names (hd : d.Consistent) {source target : String} {s t : Nat}
    (hs : d.nameAt s = some source) (ht : d.nameAt t = some target) :
    d.addUsage source target = some (d.link .uses s t) :=
  addUsage_eq_some_iff.2 ⟨s, t, hd.indexOf?_of_nameAt hs, hd.indexOf?_of_nameAt ht, rfl⟩

theorem usageOutcome (hd : d.Consistent) (source target : String) :
    d.UsageOutcome source target (d.perform (.addUsage source target)).1
      (d.perform (.addUsage source target)).2 := by
  simp only [Design.perform]
  cases h : d.addUsage source target with
  | none =>
      refine ⟨.inr rfl, iff_of_true rfl (hd.addUsage_eq_none_iff.1 h), fun _ => rfl, ?_⟩
      intro s t hs ht
      simp [hd.addUsage_of_names hs ht] at h
  | some after =>
      refine ⟨.inl rfl, ?_, fun hreply => by simp at hreply, ?_⟩
      · simp [← hd.addUsage_eq_none_iff, h]
      · intro s t hs ht
        rw [hd.addUsage_of_names hs ht] at h
        obtain rfl := Option.some.inj h
        exact ⟨rfl, rfl, rfl, Array.toList_push ..⟩

end Consistent

/-- After any calls, a request to link two entities is refused for the reasons that there are, in
their order, and for no other; and it changes what it has to change and nothing else. -/
theorem outcomes_ofCalls (calls : List Call) :
    (∀ parent child, (ofCalls calls).ContainmentOutcome parent child
      ((ofCalls calls).perform (.addContainment parent child)).1
      ((ofCalls calls).perform (.addContainment parent child)).2) ∧
    ∀ source target, (ofCalls calls).UsageOutcome source target
      ((ofCalls calls).perform (.addUsage source target)).1
      ((ofCalls calls).perform (.addUsage source target)).2 :=
  ⟨(Consistent.ofCalls calls).containmentOutcome, (Consistent.ofCalls calls).usageOutcome⟩

/-- A class is put into one of two packages. -/
def takenCalls : List Call :=
  [.addEntity "p" .package, .addEntity "q" .package, .addEntity "c" .classDecl,
    .addContainment "p" "c"]

/-- The class stays where it is and can be put there again; its package can still be put into the
other one, and a usage of a name that is not known is refused. -/
theorem outcomes_takenCalls :
    (ofCalls takenCalls).perform (.addContainment "q" "c") =
        (.refused (.otherParent "c" "p" "q"), ofCalls takenCalls) ∧
      (ofCalls takenCalls).perform (.addContainment "p" "c") = (.contained, ofCalls takenCalls) ∧
      (ofCalls takenCalls).Places
        ((ofCalls takenCalls).perform (.addContainment "q" "p")).2 1 0 "q" ∧
      ((ofCalls takenCalls).perform (.addUsage "c" "x")).1 = .linked false := by
  obtain ⟨hcontainments, husages⟩ := outcomes_ofCalls takenCalls
  let c : Entity := ⟨"c", .classDecl, some "p"⟩
  have hc : c ∈ (ofCalls takenCalls).entities := by decide +kernel
  have hrefused : ((ofCalls takenCalls).perform (.addContainment "q" "c")).1 =
      .refused (.otherParent "c" "p" "q") :=
    ((hcontainments "q" "c").refused _).2
      (.elsewhere (by decide) ⟨⟨"q", .package, none⟩, by decide +kernel, rfl⟩ hc rfl rfl (by decide))
  have hunchanged := (hcontainments "q" "c").unchanged (by rw [hrefused]; simp)
  obtain ⟨hheld, hsame⟩ := (hcontainments "p" "c").held c hc rfl rfl
  obtain ⟨_, hplaces⟩ := (hcontainments "q" "p").placed 1 0 (by decide) rfl rfl rfl
  refine ⟨Prod.ext hrefused hunchanged, Prod.ext hheld hsame, hplaces, ?_⟩
  refine (husages "c" "x").refused.2 (.inr ?_)
  rintro ⟨e, he, hname⟩
  have hknown : ∀ e ∈ (ofCalls takenCalls).entities, e.name ≠ "x" := by decide +kernel
  exact hknown e he hname

end DesignCoupling.Design
