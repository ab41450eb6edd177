import DesignCoupling.Proofs.Document.Validation

/-!
# What validation reports

A document can have many defects at once, and validation reports one of them. The sort decides
first: repeated names, then containers, then usages, then circles of containers. Within a sort it is
the first in the document. For a circle the report names the entry: the way up from the first record
that does not reach the top is followed to the first name that lies on a circle. The names that
earlier walks have found clear make no difference to that.
-/

namespace DesignCoupling.Document

open Relation (TransGen ReflTransGen)

variable {doc : Document}

/-- The container of an entity, if it has one, is declared and is not the entity itself. -/
def Housed (doc : Document) (e : Entity) : Prop :=
  ∀ name, e.parent = some name → name ∈ doc.names ∧ name ≠ e.name

/-- Both ends of a usage are declared. -/
def Joins (doc : Document) (u : Usage) : Prop := u.source ∈ doc.names ∧ u.target ∈ doc.names

/-- The names passed on the way up from one name to another, the first included and the last not. -/
inductive Way (parentOf : String → Option String) : String → List String → String → Prop
  | here (name : String) : Way parentOf name [] name
  | up {name parent last : String} {passed : List String} (hup : parentOf name = some parent)
      (habove : Way parentOf parent passed last) : Way parentOf name (name :: passed) last

/-- The way up from a name comes back to it. -/
def OnCircle (parentOf : String → Option String) (name : String) : Prop :=
  TransGen (fun n p => parentOf n = some p) name name

/-- The first name on the way up from a name that lies on a circle. -/
def Enters (parentOf : String → Option String) (name entry : String) : Prop :=
  ∃ passed, Way parentOf name passed entry ∧ (∀ n ∈ passed, ¬ OnCircle parentOf n) ∧
    OnCircle parentOf entry

section Circles

variable {parentOf : String → Option String}

namespace Way

theorem reflTransGen {name last : String} {passed : List String}
    (h : Way parentOf name passed last) :
    ReflTransGen (fun n p => parentOf n = some p) name last := by
  induction h with
  | here => exact .refl
  | up hup _ ih => exact .head hup ih

theorem split {name last n : String} {passed : List String} (h : Way parentOf name passed last)
    (hn : n ∈ passed) :
    ∃ before after, passed = before ++ n :: after ∧ Way parentOf name before n ∧
      Way parentOf n (n :: after) last := by
  induction h with
  | here => simp at hn
  | @up name parent last passed hup habove ih =>
      by_cases hname : n = name
      · subst hname
        exact ⟨[], passed, rfl, .here n, .up hup habove⟩
      · obtain ⟨before, after, rfl, hbefore, hafter⟩ := ih ((List.mem_cons.1 hn).resolve_left hname)
        exact ⟨name :: before, after, rfl, .up hup hbefore, hafter⟩

theorem mem_of_up {name last n p : String} {passed : List String}
    (h : Way parentOf name passed last) (hn : n ∈ passed) (hp : parentOf n = some p) :
    p ∈ passed ∨ p = last := by
  induction h with
  | here => simp at hn
  | @up name parent last passed hup habove ih =>
      rcases List.mem_cons.1 hn with rfl | hn
      · obtain rfl := Option.some.inj (hup.symm.trans hp)
        cases habove with
        | here => exact .inr rfl
        | up => exact .inl (by simp)
      · exact (ih hn).imp (List.mem_cons_of_mem name) id

theorem mem_round {name x : String} {passed : List String}
    (h : Way parentOf name (name :: passed) name)
    (hx : ReflTransGen (fun n p => parentOf n = some p) name x) : x ∈ name :: passed := by
  refine mem_of_reflTransGen (fun n hn p hp => ?_) List.mem_cons_self hx
  rcases h.mem_of_up hn hp with hmem | rfl
  · exact hmem
  · exact List.mem_cons_self

end Way

theorem OnCircle.back {name x : String} (h : OnCircle parentOf name)
    (hx : ReflTransGen (fun n p => parentOf n = some p) name x) :
    ReflTransGen (fun n p => parentOf n = some p) x name := by
  induction hx with
  | refl => exact .refl
  | @tail y z _ hyz ih =>
      have hstep : ∀ {c}, parentOf y = some c →
          ReflTransGen (fun n p => parentOf n = some p) c name →
            ReflTransGen (fun n p => parentOf n = some p) z name := by
        intro c hc hback
        obtain rfl := Option.some.inj (hyz.symm.trans hc)
        exact hback
      rcases ih.cases_head with rfl | ⟨c, hc, hback⟩
      · obtain ⟨c, hc, hback⟩ := TransGen.head'_iff.1 h
        exact hstep hc hback
      · exact hstep hc hback

theorem ReachesTop.not_enters {name entry : String} (h : ReachesTop parentOf name) :
    ¬ Enters parentOf name entry := by
  intro henters
  obtain ⟨_, hway, _, hcircle⟩ := henters
  exact (h.reflTransGen hway.reflTransGen).not_transGen hcircle

theorem Enters.unique {name a b : String} (ha : Enters parentOf name a)
    (hb : Enters parentOf name b) : a = b := by
  obtain ⟨passed, hway, hpassed, hcircle⟩ := ha
  obtain ⟨passed', hway', hpassed', hcircle'⟩ := hb
  induction hway generalizing passed' with
  | here name =>
      cases hway' with
      | here => rfl
      | up => exact absurd hcircle (hpassed' name List.mem_cons_self)
  | @up name parent last passed hup _ ih =>
      cases hway' with
      | here => exact absurd hcircle' (hpassed b List.mem_cons_self)
      | up hup' habove' =>
          obtain rfl := Option.some.inj (hup.symm.trans hup')
          exact ih (fun n hn => hpassed n (List.mem_cons_of_mem name hn)) hcircle _ habove'
            (fun n hn => hpassed' n (List.mem_cons_of_mem name hn))

theorem way_of_climb {clear fresh : List String} {name met : String}
    (h : climb parentOf clear fresh name = .error met) :
    ∃ passed, Way parentOf name passed met ∧ passed.Nodup ∧ (∀ n ∈ passed, n ∈ fresh) ∧
      (met ∈ fresh → met ∈ passed) := by
  fun_induction climb parentOf clear fresh name with
  | case1 => simp at h
  | case2 => simp at h
  | case3 => simp at h
  | case4 fresh name _ hfresh _ parent hup above habove ih =>
      obtain rfl := Except.error.inj h
      obtain ⟨passed, hway, hnodup, hsub, hmet⟩ := ih habove
      have hnew : name ∉ passed := fun hn => (Search.mem_without.1 (hsub name hn)).2 rfl
      refine ⟨name :: passed, .up hup hway, List.nodup_cons.2 ⟨hnew, hnodup⟩, ?_, fun hmem => ?_⟩
      · intro n hn
        rcases List.mem_cons.1 hn with rfl | hn
        · exact hfresh
        · exact (Search.mem_without.1 (hsub n hn)).1
      · by_cases hname : above = name
        · exact hname ▸ List.mem_cons_self
        · exact List.mem_cons_of_mem name (hmet (Search.mem_without.2 ⟨hmem, hname⟩))
  | case5 fresh name _ hpast =>
      obtain rfl := Except.error.inj h
      exact ⟨[], .here name, List.nodup_nil, by simp, fun hmem => absurd hmem hpast⟩

/-- A walk among declared names fails at the entry to a circle. A name before it cannot lie on a
circle: it would be reached from the entry, and so be passed twice. -/
theorem enters_of_climb {names clear : List String} {name met : String}
    (hclosed : ∀ n ∈ names, ∀ p, parentOf n = some p → p ∈ names) (hname : name ∈ names)
    (h : climb parentOf clear names name = .error met) : Enters parentOf name met := by
  obtain ⟨hreach, hcircle⟩ :=
    cycle_of_climb hclosed hname (fun n hn hpast => absurd hn hpast) h
  obtain ⟨passed, hway, hnodup, _, hmet⟩ := way_of_climb h
  obtain ⟨before, after, rfl, hbefore, hround⟩ :=
    hway.split (hmet (mem_of_reflTransGen hclosed hname hreach))
  refine ⟨before, hbefore, fun n hn hnCircle => ?_, hcircle⟩
  obtain ⟨_, _, _, _, hrest⟩ := hbefore.split hn
  have hmem : n ∈ met :: after := hround.mem_round (hnCircle.back hrest.reflTransGen)
  exact List.disjoint_of_nodup_append hnodup hn hmem

/-- Whatever names from which the way up ends are taken for clear, a walk among declared names fails
exactly at the entry to a circle. -/
theorem climb_eq_error_iff {names clear : List String} {name met : String}
    (hclosed : ∀ n ∈ names, ∀ p, parentOf n = some p → p ∈ names) (hname : name ∈ names)
    (hclear : ∀ n ∈ clear, ReachesTop parentOf n) :
    climb parentOf clear names name = .error met ↔ Enters parentOf name met := by
  constructor
  · exact enters_of_climb hclosed hname
  · intro henters
    cases hclimb : climb parentOf clear names name with
    | ok passed => exact absurd henters (reachesTop_of_climb hclear hclimb).1.not_enters
    | error met' => rw [(enters_of_climb hclosed hname hclimb).unique henters]

end Circles

private theorem firstRepeated_eq_some_iff {seen names : List String} {name : String} :
    firstRepeated seen names = some name ↔
      ∃ before after, names = before ++ name :: after ∧ firstRepeated seen before = none ∧
        (name ∈ before ∨ name ∈ seen) := by
  constructor
  · intro h
    induction names generalizing seen with
    | nil => simp [firstRepeated] at h
    | cons n names ih =>
        rw [firstRepeated] at h
        split at h
        · next hn =>
            obtain rfl := Option.some.inj h
            exact ⟨[], names, rfl, rfl, .inr hn⟩
        · next hn =>
            obtain ⟨before, after, rfl, hnone, hmem⟩ := ih h
            refine ⟨n :: before, after, rfl, by rw [firstRepeated, if_neg hn, hnone], ?_⟩
            rw [List.mem_cons] at hmem ⊢
            tauto
  · intro h
    obtain ⟨before, after, rfl, hnone, hmem⟩ := h
    induction before generalizing seen with
    | nil => rw [List.nil_append, firstRepeated, if_pos (hmem.resolve_left List.not_mem_nil)]
    | cons n before ih =>
        rw [firstRepeated] at hnone
        split at hnone
        · simp at hnone
        · next hn =>
            rw [List.cons_append, firstRepeated, if_neg hn]
            apply ih hnone
            rw [List.mem_cons] at hmem ⊢
            tauto

/-- The first record whose name occurs before is the one whose name is reported as repeated. -/
theorem firstRepeated_names_iff {name : String} :
    firstRepeated [] doc.names = some name ↔
      ∃ before e after, doc.entities = before ++ e :: after ∧
        (before.map Entity.name).Nodup ∧ e.name ∈ before.map Entity.name ∧ e.name = name := by
  rw [firstRepeated_eq_some_iff]
  simp only [firstRepeated_eq_none_iff, List.not_mem_nil, not_false_eq_true, implies_true,
    and_true, or_false]
  constructor
  · intro h
    obtain ⟨before, after, hsplit, hnodup, hmem⟩ := h
    obtain ⟨es, rest, hentities, rfl, hrest⟩ := List.map_eq_append_iff.1 hsplit
    obtain ⟨e, es', rfl, rfl, _⟩ := List.map_eq_cons_iff.1 hrest
    exact ⟨es, e, es', hentities, hnodup, hmem, rfl⟩
  · intro h
    obtain ⟨before, e, after, hentities, hnodup, hmem, rfl⟩ := h
    exact ⟨before.map Entity.name, after.map Entity.name, by simp [names, hentities], hnodup, hmem⟩

theorem parentDefect_eq_some_iff {e : Entity} {defect : Defect} :
    doc.parentDefect e = some defect ↔
      e.parent = some e.name ∧ defect = .containsItself e.name ∨
        ∃ parent, e.parent = some parent ∧ parent ≠ e.name ∧ parent ∉ doc.names ∧
          defect = .unknownParent e.name parent := by
  unfold parentDefect
  cases e.parent with
  | none => simp
  | some parent =>
      by_cases hself : parent = e.name
      · simp [hself, eq_comm]
      · by_cases hmem : parent ∈ doc.names
        · simp [hself, hmem]
        · simp [hself, hmem, eq_comm]

theorem usageDefect_eq_some_iff {u : Usage} {defect : Defect} :
    doc.usageDefect u = some defect ↔
      u.source ∉ doc.names ∧ defect = .unknownEndpoint u u.source ∨
        u.source ∈ doc.names ∧ u.target ∉ doc.names ∧ defect = .unknownEndpoint u u.target := by
  unfold usageDefect
  by_cases hsource : u.source ∈ doc.names
  · by_cases htarget : u.target ∈ doc.names
    · simp [hsource, htarget]
    · simp [hsource, htarget, eq_comm]
  · simp [hsource, eq_comm]

theorem firstCycle_eq_some_iff {clear : List String} {es : List Entity} {met : String}
    (hclosed : ∀ n ∈ doc.names, ∀ p, doc.parentOf n = some p → p ∈ doc.names)
    (hes : ∀ e ∈ es, e.name ∈ doc.names) (hclear : ∀ n ∈ clear, ReachesTop doc.parentOf n) :
    doc.firstCycle clear es = some met ↔
      ∃ before e after, es = before ++ e :: after ∧
        (∀ r ∈ before, ReachesTop doc.parentOf r.name) ∧ Enters doc.parentOf e.name met := by
  induction es generalizing clear with
  | nil => simp [firstCycle]
  | cons e es ih =>
      have he := hes e List.mem_cons_self
      have hrest : ∀ r ∈ es, r.name ∈ doc.names := fun r hr => hes r (List.mem_cons_of_mem e hr)
      rw [firstCycle]
      cases hclimb : climb doc.parentOf clear doc.names e.name with
      | ok passed =>
          obtain ⟨hends, hpassed⟩ := reachesTop_of_climb hclear hclimb
          rw [ih hrest fun n hn => (List.mem_append.1 hn).elim (hpassed n) (hclear n)]
          constructor
          · intro h
            obtain ⟨before, r, after, rfl, hbefore, henters⟩ := h
            refine ⟨e :: before, r, after, rfl, fun s hs => ?_, henters⟩
            exact (List.mem_cons.1 hs).elim (fun heq => heq ▸ hends) (hbefore s)
          · intro h
            obtain ⟨before, r, after, hsplit, hbefore, henters⟩ := h
            cases before with
            | nil =>
                obtain ⟨rfl, _⟩ := List.cons.inj hsplit
                exact absurd henters hends.not_enters
            | cons s before =>
                obtain ⟨_, rfl⟩ := List.cons.inj hsplit
                exact ⟨before, r, after, rfl, fun q hq => hbefore q (List.mem_cons_of_mem s hq),
                  henters⟩
      | error name =>
          have hentry := (climb_eq_error_iff hclosed he hclear).1 hclimb
          constructor
          · intro h
            obtain rfl := Option.some.inj h
            exact ⟨[], e, es, rfl, by simp, hentry⟩
          · intro h
            obtain ⟨before, r, after, hsplit, hbefore, henters⟩ := h
            cases before with
            | nil =>
                obtain ⟨rfl, _⟩ := List.cons.inj hsplit
                exact congrArg some (hentry.unique henters)
            | cons s before =>
                obtain ⟨rfl, _⟩ := List.cons.inj hsplit
                exact absurd hentry (hbefore e List.mem_cons_self).not_enters

/-- The defect to report of a document, with the text of the report. Each sort is looked for only in
documents without a defect of the sorts before, and of each sort the first place counts. -/
inductive Reports (doc : Document) : Defect → String → Prop
  | duplicate {before after : List Entity} {e : Entity}
      (hplace : doc.entities = before ++ e :: after) (hfirst : (before.map Entity.name).Nodup)
      (hrepeated : e.name ∈ before.map Entity.name) :
      Reports doc (.duplicate e.name) ("duplicate entity '" ++ e.name ++ "'")
  | containsItself {before after : List Entity} {e : Entity} (hdistinct : doc.names.Nodup)
      (hplace : doc.entities = before ++ e :: after) (hfirst : ∀ r ∈ before, doc.Housed r)
      (hitself : e.parent = some e.name) :
      Reports doc (.containsItself e.name) ("entity '" ++ e.name ++ "' contains itself")
  | unknownParent {before after : List Entity} {e : Entity} {parent : String}
      (hdistinct : doc.names.Nodup) (hplace : doc.entities = before ++ e :: after)
      (hfirst : ∀ r ∈ before, doc.Housed r) (hparent : e.parent = some parent)
      (hunknown : parent ∉ doc.names) :
      Reports doc (.unknownParent e.name parent)
        ("entity '" ++ e.name ++ "' names unknown parent '" ++ parent ++ "'")
  | unknownSource {before after : List Usage} {u : Usage} (hdistinct : doc.names.Nodup)
      (hhoused : ∀ e ∈ doc.entities, doc.Housed e) (hplace : doc.usages = before ++ u :: after)
      (hfirst : ∀ w ∈ before, doc.Joins w) (hsource : u.source ∉ doc.names) :
      Reports doc (.unknownEndpoint u u.source)
        ("usage '" ++ u.source ++ "' -> '" ++ u.target ++ "' names unknown entity '" ++
          u.source ++ "'")
  | unknownTarget {before after : List Usage} {u : Usage} (hdistinct : doc.names.Nodup)
      (hhoused : ∀ e ∈ doc.entities, doc.Housed e) (hplace : doc.usages = before ++ u :: after)
      (hfirst : ∀ w ∈ before, doc.Joins w) (hsource : u.source ∈ doc.names)
      (htarget : u.target ∉ doc.names) :
      Reports doc (.unknownEndpoint u u.target)
        ("usage '" ++ u.source ++ "' -> '" ++ u.target ++ "' names unknown entity '" ++
          u.target ++ "'")
  | cycle {before after : List Entity} {e : Entity} {entry : String} (hdeclared : doc.Declared)
      (hplace : doc.entities = before ++ e :: after)
      (hfirst : ∀ r ∈ before, ReachesTop doc.parentOf r.name)
      (hendless : ¬ ReachesTop doc.parentOf e.name) (hentry : Enters doc.parentOf e.name entry) :
      Reports doc (.cycle entry) ("containment cycle through '" ++ entry ++ "'")

private theorem validate_eq_error_iff_phases {defect : Defect} :
    doc.validate = .error defect ↔
      (∃ name, firstRepeated [] doc.names = some name ∧ .duplicate name = defect) ∨
      doc.names.Nodup ∧
        ((∃ before e after, doc.entities = before ++ e :: after ∧
            doc.parentDefect e = some defect ∧ ∀ r ∈ before, doc.Housed r) ∨
          (∀ e ∈ doc.entities, doc.Housed e) ∧
            ((∃ before u after, doc.usages = before ++ u :: after ∧
                doc.usageDefect u = some defect ∧ ∀ w ∈ before, doc.Joins w) ∨
              (∀ u ∈ doc.usages, doc.Joins u) ∧
                ∃ name, doc.firstCycle [] doc.entities = some name ∧ .cycle name = defect)) := by
  have hvalidate : doc.validate = .error defect ↔ doc.defect? = some defect := by
    unfold validate
    cases doc.defect? <;> simp
  simp only [hvalidate, defect?, Option.orElse_eq_orElse, Option.orElse_eq_or,
    Option.or_eq_some_iff, Option.map_eq_some_iff, Option.map_eq_none_iff,
    firstRepeated_eq_none_iff, List.findSome?_eq_some_iff, List.findSome?_eq_none_iff,
    parentDefect_eq_none_iff, usageDefect_eq_none_iff, List.not_mem_nil, not_false_eq_true,
    implies_true, and_true, Housed, Joins]

/-- With everything declared the walks report the entry to the circle above the first record that
does not reach the top. -/
theorem Declared.firstCycle_eq_some_iff (h : doc.Declared) {entry : String} :
    doc.firstCycle [] doc.entities = some entry ↔
      ∃ before e after, doc.entities = before ++ e :: after ∧
        (∀ r ∈ before, ReachesTop doc.parentOf r.name) ∧ Enters doc.parentOf e.name entry := by
  refine Document.firstCycle_eq_some_iff (fun _ _ _ => parentOf_mem_names ?_)
    (fun _ => List.mem_map_of_mem) (by simp)
  exact fun e he name hname => (h.containers e he name hname).1

private theorem validate_of_parentDefect {before after : List Entity} {e : Entity}
    {defect : Defect} (hdistinct : doc.names.Nodup) (hplace : doc.entities = before ++ e :: after)
    (hfirst : ∀ r ∈ before, doc.Housed r) (hdefect : doc.parentDefect e = some defect) :
    doc.validate = .error defect :=
  validate_eq_error_iff_phases.2
    (.inr ⟨hdistinct, .inl ⟨before, e, after, hplace, hdefect, hfirst⟩⟩)

private theorem validate_of_usageDefect {before after : List Usage} {u : Usage} {defect : Defect}
    (hdistinct : doc.names.Nodup) (hhoused : ∀ e ∈ doc.entities, doc.Housed e)
    (hplace : doc.usages = before ++ u :: after) (hfirst : ∀ w ∈ before, doc.Joins w)
    (hdefect : doc.usageDefect u = some defect) : doc.validate = .error defect :=
  validate_eq_error_iff_phases.2
    (.inr ⟨hdistinct, .inr ⟨hhoused, .inl ⟨before, u, after, hplace, hdefect, hfirst⟩⟩⟩)

private theorem Reports.validate {defect : Defect} {text : String} (h : doc.Reports defect text) :
    doc.validate = .error defect ∧ text = defect.message := by
  cases h with
  | duplicate hplace hfirst hrepeated =>
      have hname := firstRepeated_names_iff.2 ⟨_, _, _, hplace, hfirst, hrepeated, rfl⟩
      exact ⟨validate_eq_error_iff_phases.2 (.inl ⟨_, hname, rfl⟩), rfl⟩
  | @containsItself before after e hdistinct hplace hfirst hitself =>
      have hdefect : doc.parentDefect e = some (.containsItself e.name) :=
        parentDefect_eq_some_iff.2 (.inl ⟨hitself, rfl⟩)
      exact ⟨validate_of_parentDefect hdistinct hplace hfirst hdefect, rfl⟩
  | @unknownParent before after e parent hdistinct hplace hfirst hparent hunknown =>
      have hother : parent ≠ e.name := by
        rintro rfl
        exact hunknown (List.mem_map_of_mem (by simp [hplace]))
      have hdefect := parentDefect_eq_some_iff.2 (.inr ⟨parent, hparent, hother, hunknown, rfl⟩)
      exact ⟨validate_of_parentDefect hdistinct hplace hfirst hdefect, rfl⟩
  | unknownSource hdistinct hhoused hplace hfirst hsource =>
      have hdefect := usageDefect_eq_some_iff.2 (.inl ⟨hsource, rfl⟩)
      exact ⟨validate_of_usageDefect hdistinct hhoused hplace hfirst hdefect, rfl⟩
  | unknownTarget hdistinct hhoused hplace hfirst hsource htarget =>
      have hdefect := usageDefect_eq_some_iff.2 (.inr ⟨hsource, htarget, rfl⟩)
      exact ⟨validate_of_usageDefect hdistinct hhoused hplace hfirst hdefect, rfl⟩
  | cycle hdeclared hplace hfirst _ hentry =>
      have hcycle := hdeclared.firstCycle_eq_some_iff.2 ⟨_, _, _, hplace, hfirst, hentry⟩
      exact ⟨hdeclared.validate_eq_error_iff.2 ⟨_, hcycle, rfl⟩, rfl⟩

private theorem reports_of_validate {defect : Defect} (h : doc.validate = .error defect) :
    doc.Reports defect defect.message := by
  rcases validate_eq_error_iff_phases.1 h with ⟨name, hname, rfl⟩ | ⟨hdistinct, h⟩
  · obtain ⟨before, e, after, hplace, hfirst, hrepeated, rfl⟩ := firstRepeated_names_iff.1 hname
    exact .duplicate hplace hfirst hrepeated
  rcases h with ⟨before, e, after, hplace, hdefect, hfirst⟩ | ⟨hhoused, h⟩
  · rcases parentDefect_eq_some_iff.1 hdefect with
      ⟨hitself, rfl⟩ | ⟨parent, hparent, _, hunknown, rfl⟩
    · exact .containsItself hdistinct hplace hfirst hitself
    · exact .unknownParent hdistinct hplace hfirst hparent hunknown
  rcases h with ⟨before, u, after, hplace, hdefect, hfirst⟩ | ⟨hjoins, entry, hcycle, rfl⟩
  · rcases usageDefect_eq_some_iff.1 hdefect with ⟨hsource, rfl⟩ | ⟨hsource, htarget, rfl⟩
    · exact .unknownSource hdistinct hhoused hplace hfirst hsource
    · exact .unknownTarget hdistinct hhoused hplace hfirst hsource htarget
  · have hdeclared : doc.Declared := ⟨hdistinct, hhoused, hjoins⟩
    obtain ⟨before, e, after, hplace, hfirst, hentry⟩ :=
      hdeclared.firstCycle_eq_some_iff.1 hcycle
    exact .cycle hdeclared hplace hfirst (fun hends => hends.not_enters hentry) hentry

/-- What validation answers to a document that it rejects, text included, is what is to be reported
of the document, and nothing else is. -/
theorem reports_iff_validate (doc : Document) (defect : Defect) (text : String) :
    doc.Reports defect text ↔ doc.validate = .error defect ∧ text = defect.message := by
  constructor
  · exact Reports.validate
  · intro h
    obtain ⟨hvalidate, rfl⟩ := h
    exact reports_of_validate hvalidate

-- a repeated name comes before an unknown container, wherever it stands
example : validate ⟨none, [⟨"a", .classDecl, some "z"⟩, ⟨"b", .method, none⟩, ⟨"b", .field, none⟩],
    [⟨"x", "y"⟩]⟩ = .error (.duplicate "b") := by cbv

-- the entry from the method, although the other package stands first
example : validate ⟨none, [⟨"m", .method, some "p"⟩, ⟨"q", .package, some "p"⟩,
    ⟨"p", .package, some "q"⟩], []⟩ = .error (.cycle "p") := by cbv

end DesignCoupling.Document
