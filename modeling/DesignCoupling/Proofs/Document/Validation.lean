import DesignCoupling.Proofs.Document.WellFormed

/-!
# Validation

Validation accepts the well-formed documents and no others. Its last phase walks up from every
record and stops at names known to be clear; the walks are sound because a clear name is one from
which the way up ends, and complete because a name met twice on one way lies on a cycle.
-/

namespace DesignCoupling.Document

open Containment

variable {doc : Document}

theorem firstRepeated_eq_none_iff {seen names : List String} :
    firstRepeated seen names = none ↔ names.Nodup ∧ ∀ name ∈ names, name ∉ seen := by
  induction names generalizing seen with
  | nil => simp [firstRepeated]
  | cons name names ih =>
      rw [firstRepeated]
      by_cases hname : name ∈ seen
      · simp [hname]
      · rw [if_neg hname, ih]
        simp only [List.nodup_cons, List.mem_cons, not_or, forall_eq_or_imp]
        constructor
        · intro h
          rcases h with ⟨hnodup, hfresh⟩
          have hnot : name ∉ names := fun hmem => (hfresh name hmem).1 rfl
          exact ⟨⟨hnot, hnodup⟩, hname, fun n hn => (hfresh n hn).2⟩
        · intro h
          rcases h with ⟨⟨hnot, hnodup⟩, _, hfresh⟩
          refine ⟨hnodup, fun n hn => ⟨?_, hfresh n hn⟩⟩
          intro heq
          subst heq
          exact hnot hn

theorem parentDefect_eq_none_iff {e : Entity} :
    doc.parentDefect e = none ↔
      ∀ name, e.parent = some name → name ∈ doc.names ∧ name ≠ e.name := by
  unfold parentDefect
  cases e.parent with
  | none => simp
  | some parent =>
      by_cases hself : parent = e.name
      · simp [hself]
      · by_cases hmem : parent ∈ doc.names <;> simp [hself, hmem]

theorem usageDefect_eq_none_iff {u : Usage} :
    doc.usageDefect u = none ↔ u.source ∈ doc.names ∧ u.target ∈ doc.names := by
  unfold usageDefect
  by_cases hsource : u.source ∈ doc.names <;> by_cases htarget : u.target ∈ doc.names <;>
    simp [hsource, htarget]

/-- The way up from a name comes to an end. -/
def ReachesTop (parentOf : String → Option String) (name : String) : Prop :=
  Acc (fun p n => parentOf n = some p) name

section Walks

variable {parentOf : String → Option String}

theorem ReachesTop.of_up {name : String}
    (h : ∀ parent, parentOf name = some parent → ReachesTop parentOf parent) :
    ReachesTop parentOf name :=
  Acc.intro name h

theorem ReachesTop.reflTransGen {name above : String} (h : ReachesTop parentOf name)
    (hup : Relation.ReflTransGen (fun n p => parentOf n = some p) name above) :
    ReachesTop parentOf above := by
  induction hup with
  | refl => exact h
  | tail _ hstep ih => exact Acc.inv ih hstep

theorem ReachesTop.not_transGen {name : String} (h : ReachesTop parentOf name) :
    ¬ Relation.TransGen (fun n p => parentOf n = some p) name name := by
  induction h with
  | intro name _ ih =>
      intro hcycle
      obtain ⟨parent, hup, hback⟩ := Relation.TransGen.head'_iff.1 hcycle
      exact ih parent hup (.tail' hback hup)

theorem mem_of_reflTransGen {names : List String}
    (hclosed : ∀ n ∈ names, ∀ p, parentOf n = some p → p ∈ names) {name above : String}
    (hname : name ∈ names)
    (hup : Relation.ReflTransGen (fun n p => parentOf n = some p) name above) : above ∈ names := by
  induction hup with
  | refl => exact hname
  | tail _ hstep ih => exact hclosed _ ih _ hstep

theorem reachesTop_of_climb {clear fresh passed : List String} {name : String}
    (hclear : ∀ n ∈ clear, ReachesTop parentOf n)
    (h : climb parentOf clear fresh name = .ok passed) :
    ReachesTop parentOf name ∧ ∀ n ∈ passed, ReachesTop parentOf n := by
  fun_induction climb parentOf clear fresh name generalizing passed with
  | case1 fresh name hname =>
      obtain rfl := Except.ok.inj h
      exact ⟨hclear name hname, by simp⟩
  | case2 fresh name _ _ _ htop =>
      obtain rfl := Except.ok.inj h
      have hends : ReachesTop parentOf name := .of_up (by simp [htop])
      exact ⟨hends, by simpa using hends⟩
  | case3 fresh name _ _ _ parent hup above habove ih =>
      obtain rfl := Except.ok.inj h
      obtain ⟨hparent, hrest⟩ := ih habove
      have hends : ReachesTop parentOf name := by
        apply ReachesTop.of_up
        intro p hp
        obtain rfl := Option.some.inj (hup.symm.trans hp)
        exact hparent
      refine ⟨hends, fun n hn => ?_⟩
      rcases List.mem_cons.1 hn with rfl | hn
      · exact hends
      · exact hrest n hn
  | case4 => simp at h
  | case5 => simp at h

/-- A walk among declared names fails only at a name on the way that comes back to itself. The
names that are no longer fresh are those from which the walk has come. -/
theorem cycle_of_climb {names clear fresh : List String} {name met : String}
    (hclosed : ∀ n ∈ names, ∀ p, parentOf n = some p → p ∈ names) (hname : name ∈ names)
    (hpassed : ∀ n ∈ names, n ∉ fresh →
      Relation.TransGen (fun n p => parentOf n = some p) n name)
    (h : climb parentOf clear fresh name = .error met) :
    Relation.ReflTransGen (fun n p => parentOf n = some p) name met ∧
      Relation.TransGen (fun n p => parentOf n = some p) met met := by
  fun_induction climb parentOf clear fresh name with
  | case1 => simp at h
  | case2 => simp at h
  | case3 => simp at h
  | case4 fresh name _ hfresh _ parent hup above habove ih =>
      obtain rfl := Except.error.inj h
      have habovePassed : ∀ n ∈ names, n ∉ Search.without fresh name →
          Relation.TransGen (fun n p => parentOf n = some p) n parent := by
        intro n hn hpast
        by_cases hne : n = name
        · exact hne ▸ .single hup
        · exact .tail (hpassed n hn fun hmem => hpast (Search.mem_without.2 ⟨hmem, hne⟩)) hup
      obtain ⟨hreach, hcycle⟩ := ih (hclosed name hname parent hup) habovePassed habove
      exact ⟨.head hup hreach, hcycle⟩
  | case5 fresh name _ hpast =>
      obtain rfl := Except.error.inj h
      exact ⟨.refl, hpassed name hname hpast⟩

end Walks

theorem reachesTop_of_firstCycle {clear : List String} {es : List Entity}
    (hclear : ∀ n ∈ clear, ReachesTop doc.parentOf n) (h : doc.firstCycle clear es = none) :
    ∀ e ∈ es, ReachesTop doc.parentOf e.name := by
  induction es generalizing clear with
  | nil => simp
  | cons e es ih =>
      rw [firstCycle] at h
      split at h
      · next passed hclimb =>
          obtain ⟨hends, hpassed⟩ := reachesTop_of_climb hclear hclimb
          have hrest := ih (fun n hn => (List.mem_append.1 hn).elim (hpassed n) (hclear n)) h
          intro r hr
          rcases List.mem_cons.1 hr with rfl | hr
          · exact hends
          · exact hrest r hr
      · simp at h

theorem cycle_of_firstCycle {clear : List String} {es : List Entity} {met : String}
    (hclosed : ∀ n ∈ doc.names, ∀ p, doc.parentOf n = some p → p ∈ doc.names)
    (hes : ∀ e ∈ es, e.name ∈ doc.names) (h : doc.firstCycle clear es = some met) :
    met ∈ doc.names ∧ Relation.TransGen (fun n p => doc.parentOf n = some p) met met := by
  induction es generalizing clear with
  | nil => simp [firstCycle] at h
  | cons e es ih =>
      rw [firstCycle] at h
      split at h
      · exact ih (fun r hr => hes r (List.mem_cons_of_mem e hr)) h
      · next name hclimb =>
          obtain rfl := Option.some.inj h
          have he : e.name ∈ doc.names := hes e List.mem_cons_self
          have hpassed : ∀ n ∈ doc.names, n ∉ doc.names →
              Relation.TransGen (fun n p => doc.parentOf n = some p) n e.name :=
            fun n hn hpast => absurd hn hpast
          obtain ⟨hreach, hcycle⟩ := cycle_of_climb hclosed he hpassed hclimb
          exact ⟨mem_of_reflTransGen hclosed he hreach, hcycle⟩

private theorem defect?_eq_none_iff :
    doc.defect? = none ↔
      doc.names.Nodup ∧
        (∀ e ∈ doc.entities, ∀ name, e.parent = some name → name ∈ doc.names ∧ name ≠ e.name) ∧
        (∀ u ∈ doc.usages, u.source ∈ doc.names ∧ u.target ∈ doc.names) ∧
        doc.firstCycle [] doc.entities = none := by
  simp only [defect?, Option.orElse_eq_orElse, Option.orElse_eq_or, Option.or_eq_none_iff,
    Option.map_eq_none_iff, firstRepeated_eq_none_iff, List.findSome?_eq_none_iff,
    parentDefect_eq_none_iff, usageDefect_eq_none_iff, List.not_mem_nil, not_false_eq_true,
    implies_true, and_true]

/-- With distinct names and declared containers, no cycle is found exactly if there is none. -/
theorem firstCycle_eq_none_iff (hdistinct : doc.names.Nodup)
    (hcontainers : ∀ e ∈ doc.entities, ∀ name, e.parent = some name → name ∈ doc.names) :
    doc.firstCycle [] doc.entities = none ↔ ∀ e ∈ doc.entities, ¬ doc.Inside e e := by
  constructor
  · intro hnone e he hinside
    have hends := reachesTop_of_firstCycle (fun n hn => absurd hn List.not_mem_nil) hnone e he
    exact hends.not_transGen (transGen_of_inside hdistinct he hinside).1
  · intro hacyclic
    rw [Option.eq_none_iff_forall_ne_some]
    intro met hmet
    have hclosed : ∀ n ∈ doc.names, ∀ p, doc.parentOf n = some p → p ∈ doc.names :=
      fun _ _ _ => parentOf_mem_names hcontainers
    obtain ⟨hname, hcycle⟩ := cycle_of_firstCycle hclosed (fun _ => List.mem_map_of_mem) hmet
    obtain ⟨e, he, rfl⟩ := List.mem_map.1 hname
    obtain ⟨b, hb, hinside⟩ := inside_of_transGen hdistinct hcontainers he hcycle
    obtain rfl := Option.some.inj ((entity?_name hdistinct he).symm.trans hb)
    exact hacyclic e he hinside

theorem defect?_eq_none_iff_wellFormed : doc.defect? = none ↔ doc.WellFormed := by
  rw [defect?_eq_none_iff]
  constructor
  · intro h
    rcases h with ⟨hdistinct, hcontainers, hendpoints, hcycle⟩
    have hdeclared := fun e he name hname => (hcontainers e he name hname).1
    have hacyclic := (firstCycle_eq_none_iff hdistinct hdeclared).1 hcycle
    exact ⟨hdistinct, hcontainers, hendpoints, hacyclic⟩
  · intro h
    rcases h with ⟨hdistinct, hcontainers, hendpoints, hacyclic⟩
    have hdeclared := fun e he name hname => (hcontainers e he name hname).1
    have hcycle := (firstCycle_eq_none_iff hdistinct hdeclared).2 hacyclic
    exact ⟨hdistinct, hcontainers, hendpoints, hcycle⟩

private theorem validate_eq_ok_iff_defect? : doc.validate = .ok () ↔ doc.defect? = none := by
  unfold validate
  cases doc.defect? <;> simp

theorem WellFormed.of_validate (h : doc.validate = .ok ()) : doc.WellFormed :=
  defect?_eq_none_iff_wellFormed.1 (validate_eq_ok_iff_defect?.1 h)

theorem WellFormed.validate (h : doc.WellFormed) : doc.validate = .ok () :=
  validate_eq_ok_iff_defect?.2 (defect?_eq_none_iff_wellFormed.2 h)

theorem Declared.validate_eq_error_iff (h : doc.Declared) {defect : Defect} :
    doc.validate = .error defect ↔
      ∃ name, doc.firstCycle [] doc.entities = some name ∧ defect = .cycle name := by
  have hrepeated : firstRepeated [] doc.names = none :=
    firstRepeated_eq_none_iff.2 ⟨h.distinct, by simp⟩
  have hparents : doc.entities.findSome? doc.parentDefect = none :=
    List.findSome?_eq_none_iff.2 fun e he => parentDefect_eq_none_iff.2 (h.containers e he)
  have husages : doc.usages.findSome? doc.usageDefect = none :=
    List.findSome?_eq_none_iff.2 fun u hu => usageDefect_eq_none_iff.2 (h.endpoints u hu)
  have hdefect : doc.defect? = (doc.firstCycle [] doc.entities).map .cycle := by
    rw [defect?, hrepeated, hparents, husages]
    rfl
  rw [Document.validate, hdefect]
  cases doc.firstCycle [] doc.entities with
  | none => simp
  | some name => simp [eq_comm]

theorem Declared.exists_cycle_iff (h : doc.Declared) :
    (∃ name, doc.validate = .error (.cycle name)) ↔ ∃ e ∈ doc.entities, doc.Inside e e := by
  have hnone := firstCycle_eq_none_iff h.distinct
    fun e he name hname => (h.containers e he name hname).1
  simp only [h.validate_eq_error_iff, Defect.cycle.injEq, exists_eq_right']
  rw [← Option.ne_none_iff_exists', ne_eq, hnone]
  simp only [not_forall, not_not, exists_prop]

/-- A walk that only remembers the names it has met. It ends at the top, at a clear name, or at a
name met before; nothing bounds it beforehand. -/
inductive Ascent (parentOf : String → Option String) (clear : List String) :
    List String → Option String → Except String (List String) → Prop
  | top {met : List String} : Ascent parentOf clear met none (.ok [])
  | clear {met : List String} {name : String} (hclear : name ∈ clear) :
      Ascent parentOf clear met (some name) (.ok [])
  | again {met : List String} {name : String} (hclear : name ∉ clear) (hmet : name ∈ met) :
      Ascent parentOf clear met (some name) (.error name)
  | up {met : List String} {name : String} {above : Option String}
      {answer : Except String (List String)} (hclear : name ∉ clear) (hmet : name ∉ met)
      (hup : parentOf name = above) (habove : Ascent parentOf clear (name :: met) above answer) :
      Ascent parentOf clear met (some name) (answer.map (name :: ·))

private theorem exists_ascent (clear met : List String) (start : Option String) :
    ∃ answer, Ascent doc.parentOf clear met start answer := by
  suffices h : ∀ (fresh met : List String), (∀ n ∈ doc.names, n ∉ met → n ∈ fresh) →
      ∀ start, ∃ answer, Ascent doc.parentOf clear met start answer from
    h doc.names met (fun n hn _ => hn) start
  intro fresh
  -- on the declared names not met so far: a step uses one up, or it leaves the declared names
  induction hlen : fresh.length using Nat.strongRecOn generalizing fresh with
  | _ count ih =>
      intro met hfresh start
      cases start with
      | none => exact ⟨_, .top⟩
      | some name =>
          by_cases hclear : name ∈ clear
          · exact ⟨_, .clear hclear⟩
          by_cases hmet : name ∈ met
          · exact ⟨_, .again hclear hmet⟩
          cases hup : doc.parentOf name with
          | none => exact ⟨_, .up hclear hmet hup .top⟩
          | some parent =>
              obtain ⟨e, he, _⟩ := Option.bind_eq_some_iff.1 hup
              obtain ⟨hmem, rfl⟩ := mem_of_entity? he
              have hname : e.name ∈ fresh := hfresh e.name (List.mem_map_of_mem hmem) hmet
              have hrest : ∀ n ∈ doc.names, n ∉ e.name :: met →
                  n ∈ Search.without fresh e.name := by
                intro n hn hnot
                obtain ⟨hne, hold⟩ := not_or.1 (mt List.mem_cons.2 hnot)
                exact Search.mem_without.2 ⟨hfresh n hn hold, hne⟩
              have hless := hlen ▸ Search.length_without_lt hname
              obtain ⟨answer, habove⟩ := ih _ hless _ rfl (e.name :: met) hrest (some parent)
              exact ⟨_, .up hclear hmet hup habove⟩

/-- Among declared names a walk that uses up fresh names is one that remembers the others. -/
private theorem ascent_climb {names clear fresh met : List String}
    {parentOf : String → Option String} {name : String}
    (hclosed : ∀ n ∈ names, ∀ p, parentOf n = some p → p ∈ names) (hname : name ∈ names)
    (hfresh : ∀ n ∈ names, n ∈ fresh ↔ n ∉ met) :
    Ascent parentOf clear met (some name) (climb parentOf clear fresh name) := by
  have hrest : ∀ (name : String) (fresh met : List String), (∀ n ∈ names, n ∈ fresh ↔ n ∉ met) →
      ∀ n ∈ names, n ∈ Search.without fresh name ↔ n ∉ name :: met := by
    intro name fresh met hfresh n hn
    rw [Search.mem_without, List.mem_cons, not_or, hfresh n hn, and_comm]
  fun_induction climb parentOf clear fresh name generalizing met with
  | case1 fresh name hclear => exact .clear hclear
  | case2 fresh name hclear hmem _ hup =>
      exact .up hclear ((hfresh name hname).1 hmem) hup .top
  | case3 fresh name hclear hmem _ parent hup passed habove ih =>
      have hclimb := ih (hclosed name hname parent hup) (hrest name fresh met hfresh)
      rw [habove] at hclimb
      exact .up hclear ((hfresh name hname).1 hmem) hup hclimb
  | case4 fresh name hclear hmem _ parent hup again habove ih =>
      have hclimb := ih (hclosed name hname parent hup) (hrest name fresh met hfresh)
      rw [habove] at hclimb
      exact .up hclear ((hfresh name hname).1 hmem) hup hclimb
  | case5 fresh name hclear hmem =>
      exact .again hclear (not_not.1 (mt (hfresh name hname).2 hmem))

/-- Validation accepts exactly the well-formed documents. Its walks end in every document, from
every start and with any names taken for clear; and where containers are declared the answer to a
walk is the one that it gives when it only remembers the names met so far. -/
theorem validate_eq_ok_iff_wellFormed (doc : Document) :
    (doc.validate = .ok () ↔ doc.WellFormed) ∧
      (∀ clear start, ∃ answer, Ascent doc.parentOf clear [] start answer) ∧
      ((∀ e ∈ doc.entities, doc.parentDefect e = none) → ∀ clear, ∀ e ∈ doc.entities,
        Ascent doc.parentOf clear [] (some e.name)
          (climb doc.parentOf clear doc.names e.name)) := by
  refine ⟨⟨.of_validate, fun h => h.validate⟩, fun clear => exists_ascent clear [], ?_⟩
  intro hparents clear e he
  have hcontainers : ∀ e ∈ doc.entities, ∀ name, e.parent = some name → name ∈ doc.names :=
    fun e he name hname => (parentDefect_eq_none_iff.1 (hparents e he) name hname).1
  exact ascent_climb (fun _ _ _ => parentOf_mem_names hcontainers) (List.mem_map_of_mem he)
    (by simp)

/-- Two packages that hold each other. -/
def mutualContainers : Document where
  name := none
  entities := [⟨"a", .package, some "b"⟩, ⟨"b", .package, some "a"⟩]
  usages := []

/-- Packages that hold each other are declared containers, and the way up from the first comes
back to it. -/
theorem ascent_mutualContainers :
    (∀ e ∈ mutualContainers.entities, mutualContainers.parentDefect e = none) ∧
      Ascent mutualContainers.parentOf [] [] (some "a") (.error "a") := by
  have hparents : ∀ e ∈ mutualContainers.entities, mutualContainers.parentDefect e = none := by
    decide
  have hclimb : climb mutualContainers.parentOf [] mutualContainers.names "a" = .error "a" := by
    cbv
  refine ⟨hparents, ?_⟩
  have hwalk := (validate_eq_ok_iff_wellFormed mutualContainers).2.2 hparents []
    ⟨"a", .package, some "b"⟩ (by decide)
  exact hclimb ▸ hwalk

end DesignCoupling.Document
