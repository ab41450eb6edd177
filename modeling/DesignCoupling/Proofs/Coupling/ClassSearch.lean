import DesignCoupling.Proofs.Coupling.Units
import Mathlib.Data.Fintype.Pigeonhole

/-!
# The search for the class around an entity

From an entity a name leads to its container, the name kept there to the next one, and so on. The
names need not come to an end: they may run in a circle, may come back to the entity, and may lead
nowhere. The search goes up name by name and gives up at a name met before. This loses nothing, as
the names after a repeated one are those that followed it the first time, so that the answer is the
first class of the whole sequence, however long that is.
-/

namespace DesignCoupling.Provider

open Containment

/-- The names on the way up from an entity, its own container first. -/
def nameAbove (P : Provider) (e : Entity) : Nat → Option String
  | 0 => e.parent
  | k + 1 => (P.nameAbove e k).bind fun name => (P.lookup name).bind Entity.parent

/-- The name at this height leads to a class. -/
def ClassAt (P : Provider) (e : Entity) (k : Nat) (c : Entity) : Prop :=
  ∃ name, P.nameAbove e k = some name ∧ P.lookup name = some c ∧ c.kind = .classDecl

/-- The name at this height leads to something that is no class. -/
def OtherAt (P : Provider) (e : Entity) (k : Nat) : Prop :=
  ∃ name r, P.nameAbove e k = some name ∧ P.lookup name = some r ∧ r.kind ≠ .classDecl

/-- How the way up can fail to meet a class: it ends, it meets a name that leads nowhere, or it meets
a name again. -/
inductive Classless (P : Provider) (e : Entity) : Prop
  | ends {k : Nat} (hend : P.nameAbove e k = none) (hbelow : ∀ j < k, P.OtherAt e j)
  | dangles {k : Nat} {name : String} (hname : P.nameAbove e k = some name)
      (hlookup : P.lookup name = none) (hbelow : ∀ j < k, P.OtherAt e j)
  | circles {i k : Nat} (hik : i < k) (hagain : P.nameAbove e i = P.nameAbove e k)
      (hbelow : ∀ j < k, P.OtherAt e j)

/-- A search that remembers the names it has met and gives up when it meets one again. Nothing else
bounds it. -/
inductive Climbs (P : Provider) : List String → Option String → Option Entity → Prop
  | top {met : List String} : Climbs P met none none
  | again {met : List String} {name : String} (hmet : name ∈ met) : Climbs P met (some name) none
  | lost {met : List String} {name : String} (hmet : name ∉ met) (hlookup : P.lookup name = none) :
      Climbs P met (some name) none
  | found {met : List String} {name : String} {c : Entity} (hmet : name ∉ met)
      (hlookup : P.lookup name = some c) (hkind : c.kind = .classDecl) :
      Climbs P met (some name) (some c)
  | up {met : List String} {name : String} {r : Entity} {answer : Option Entity}
      (hmet : name ∉ met) (hlookup : P.lookup name = some r) (hkind : r.kind ≠ .classDecl)
      (hrest : Climbs P (name :: met) r.parent answer) : Climbs P met (some name) answer

variable {P : Provider} {e r c : Entity}

theorem nameAbove_succ (h : container P.lookup e = some r) (k : Nat) :
    P.nameAbove e (k + 1) = P.nameAbove r k := by
  induction k with
  | zero =>
      obtain ⟨name, hparent, hlookup⟩ := container_eq_some_iff.1 h
      simp [nameAbove, hparent, hlookup]
  | succ k ih => rw [nameAbove, ih, nameAbove]

theorem classAt_succ_iff (h : container P.lookup e = some r) {k : Nat} :
    P.ClassAt e (k + 1) c ↔ P.ClassAt r k c := by
  rw [ClassAt, ClassAt, nameAbove_succ h]

theorem otherAt_succ_iff (h : container P.lookup e = some r) {k : Nat} :
    P.OtherAt e (k + 1) ↔ P.OtherAt r k := by
  rw [OtherAt, OtherAt, nameAbove_succ h]

theorem classAt_zero_iff :
    P.ClassAt e 0 c ↔ container P.lookup e = some c ∧ c.kind = .classDecl := by
  rw [container_eq_some_iff]
  constructor
  · intro h
    rcases h with ⟨name, hparent, hlookup, hkind⟩
    exact ⟨⟨name, hparent, hlookup⟩, hkind⟩
  · intro h
    rcases h with ⟨⟨name, hparent, hlookup⟩, hkind⟩
    exact ⟨name, hparent, hlookup, hkind⟩

theorem otherAt_zero_iff :
    P.OtherAt e 0 ↔ ∃ r, container P.lookup e = some r ∧ r.kind ≠ .classDecl := by
  simp only [container_eq_some_iff]
  constructor
  · intro h
    rcases h with ⟨name, r, hparent, hlookup, hkind⟩
    exact ⟨r, ⟨name, hparent, hlookup⟩, hkind⟩
  · intro h
    rcases h with ⟨r, ⟨name, hparent, hlookup⟩, hkind⟩
    exact ⟨name, r, hparent, hlookup, hkind⟩

theorem nearestClass_iff :
    NearestClass P.lookup e c ↔ ∃ k, P.ClassAt e k c ∧ ∀ j < k, P.OtherAt e j := by
  constructor
  · intro h
    induction h with
    | here hc hkind => exact ⟨0, classAt_zero_iff.2 ⟨hc, hkind⟩, by simp⟩
    | above hr hkind _ ih =>
        obtain ⟨k, hclass, hbelow⟩ := ih
        refine ⟨k + 1, (classAt_succ_iff hr).2 hclass, fun j hj => ?_⟩
        cases j with
        | zero => exact otherAt_zero_iff.2 ⟨_, hr, hkind⟩
        | succ j => exact (otherAt_succ_iff hr).2 (hbelow j (Nat.lt_of_succ_lt_succ hj))
  · intro h
    rcases h with ⟨k, hclass, hbelow⟩
    induction k generalizing e with
    | zero =>
        obtain ⟨hc, hkind⟩ := classAt_zero_iff.1 hclass
        exact .here hc hkind
    | succ k ih =>
        obtain ⟨r, hr, hkind⟩ := otherAt_zero_iff.1 (hbelow 0 k.succ_pos)
        refine .above hr hkind (ih ((classAt_succ_iff hr).1 hclass) fun j hj => ?_)
        exact (otherAt_succ_iff hr).1 (hbelow (j + 1) (Nat.succ_lt_succ hj))

theorem OtherAt.not_classAt {k : Nat} (h : P.OtherAt e k) (c : Entity) : ¬ P.ClassAt e k c := by
  intro hclass
  obtain ⟨name, r, hname, hlookup, hkind⟩ := h
  obtain ⟨name', hname', hlookup', hkind'⟩ := hclass
  obtain rfl := Option.some.inj (hname.symm.trans hname')
  obtain rfl := Option.some.inj (hlookup.symm.trans hlookup')
  exact hkind hkind'

theorem nameAbove_add {i k : Nat} (h : P.nameAbove e i = P.nameAbove e k) (n : Nat) :
    P.nameAbove e (i + n) = P.nameAbove e (k + n) := by
  induction n with
  | zero => exact h
  | succ n ih => rw [← Nat.add_assoc, ← Nat.add_assoc, nameAbove, nameAbove, ih]

theorem otherAt_of_circle {i k : Nat} (hik : i < k) (hagain : P.nameAbove e i = P.nameAbove e k)
    (hbelow : ∀ j < k, P.OtherAt e j) (n : Nat) : P.OtherAt e n := by
  induction n using Nat.strongRecOn with
  | _ n ih =>
      by_cases hn : n < k
      · exact hbelow n hn
      · -- one round earlier the same name came up
        have hsame := nameAbove_add hagain (n - k)
        rw [Nat.add_sub_cancel' (Nat.le_of_not_lt hn)] at hsame
        have hearlier := ih (i + (n - k)) (by omega)
        rwa [OtherAt, hsame] at hearlier

/-- Only finitely many names can come up, so that one of infinitely many comes up again. -/
theorem exists_circle (h : ∀ k, P.OtherAt e k) :
    ∃ i k, i < k ∧ P.nameAbove e i = P.nameAbove e k := by
  have hnames : ∀ k, ∃ name ∈ e.parent.toList ++ P.containerNames, P.nameAbove e k = some name := by
    intro k
    obtain ⟨name, _, hname, _⟩ := h k
    refine ⟨name, ?_, hname⟩
    cases k with
    | zero => exact List.mem_append_left _ (Option.mem_toList.2 hname)
    | succ k =>
        obtain ⟨below, _, hlookup⟩ := Option.bind_eq_some_iff.1 hname
        obtain ⟨r, hr, hparent⟩ := Option.bind_eq_some_iff.1 hlookup
        exact List.mem_append_right _ (List.mem_filterMap.2 ⟨r, P.mem_of_lookup hr, hparent⟩)
  choose name hmem hname using hnames
  obtain ⟨i, k, hne, hsame⟩ := Finite.exists_ne_map_eq_of_infinite
    fun k => (⟨name k, hmem k⟩ : {n // n ∈ e.parent.toList ++ P.containerNames})
  have hagain : P.nameAbove e i = P.nameAbove e k := by
    rw [hname i, hname k, Subtype.mk.inj hsame]
  rcases Nat.lt_or_gt_of_ne hne with hlt | hlt
  · exact ⟨i, k, hlt, hagain⟩
  · exact ⟨k, i, hlt, hagain.symm⟩

private theorem height_unique {i k : Nat} (hi : ¬ P.OtherAt e i) (hbelowi : ∀ j < i, P.OtherAt e j)
    (hk : ¬ P.OtherAt e k) (hbelowk : ∀ j < k, P.OtherAt e j) : i = k := by
  rcases Nat.lt_trichotomy i k with hlt | heq | hlt
  · exact absurd (hbelowk i hlt) hi
  · exact heq
  · exact absurd (hbelowi k hlt) hk

/-- The way up meets no class exactly if it fails in one of the three ways. -/
theorem classless_iff : P.Classless e ↔ ¬ ∃ c, NearestClass P.lookup e c := by
  constructor
  · intro hfails hmeets
    obtain ⟨c, hnearest⟩ := hmeets
    obtain ⟨k, hclass, hbelow⟩ := nearestClass_iff.1 hnearest
    have hstop : ¬ P.OtherAt e k := fun hother => hother.not_classAt c hclass
    obtain ⟨name, hname, hlookup, _⟩ := hclass
    cases hfails with
    | @ends i hend hbelowi =>
        have hi : ¬ P.OtherAt e i := by
          rintro ⟨_, _, h, _⟩
          simp [hend] at h
        obtain rfl := height_unique hi hbelowi hstop hbelow
        simp [hend] at hname
    | @dangles i name' hname' hlost hbelowi =>
        have hi : ¬ P.OtherAt e i := by
          rintro ⟨_, _, h, hfound, _⟩
          obtain rfl := Option.some.inj (hname'.symm.trans h)
          simp [hlost] at hfound
        obtain rfl := height_unique hi hbelowi hstop hbelow
        obtain rfl := Option.some.inj (hname'.symm.trans hname)
        simp [hlost] at hlookup
    | circles hik hagain hbelowi => exact hstop (otherAt_of_circle hik hagain hbelowi k)
  · intro hnone
    by_cases hall : ∀ k, P.OtherAt e k
    · obtain ⟨i, k, hik, hagain⟩ := exists_circle hall
      exact .circles hik hagain fun j _ => hall j
    · -- at the first height that does not just pass there is no class either
      classical
      have hstops : ∃ k, ¬ P.OtherAt e k := not_forall.1 hall
      have hbelow : ∀ j < Nat.find hstops, P.OtherAt e j :=
        fun j hj => not_not.1 (Nat.find_min hstops hj)
      cases hname : P.nameAbove e (Nat.find hstops) with
      | none => exact .ends hname hbelow
      | some name =>
          cases hlookup : P.lookup name with
          | none => exact .dangles hname hlookup hbelow
          | some r =>
              by_cases hkind : r.kind = .classDecl
              · have hclass : P.ClassAt e (Nat.find hstops) r := ⟨name, hname, hlookup, hkind⟩
                exact absurd ⟨r, nearestClass_iff.2 ⟨_, hclass, hbelow⟩⟩ hnone
              · exact absurd ⟨name, r, hname, hlookup, hkind⟩ (Nat.find_spec hstops)

theorem Climbs.unique {met : List String} {next : Option String} {answer answer' : Option Entity}
    (h : P.Climbs met next answer) (h' : P.Climbs met next answer') : answer = answer' := by
  induction h with
  | top =>
      cases h'
      rfl
  | again hmet =>
      cases h' with
      | again => rfl
      | lost hmet' _ => rfl
      | found hmet' _ _ => exact absurd hmet hmet'
      | up hmet' _ _ _ => exact absurd hmet hmet'
  | lost hmet hlookup =>
      cases h' with
      | again => rfl
      | lost => rfl
      | found _ hlookup' _ => simp [hlookup] at hlookup'
      | up _ hlookup' _ _ => simp [hlookup] at hlookup'
  | found hmet hlookup hkind =>
      cases h' with
      | again hmet' => exact absurd hmet' hmet
      | lost _ hlookup' => simp [hlookup] at hlookup'
      | found _ hlookup' _ => exact hlookup.symm.trans hlookup'
      | up _ hlookup' hkind' _ =>
          obtain rfl := Option.some.inj (hlookup.symm.trans hlookup')
          exact absurd hkind hkind'
  | up hmet hlookup hkind _ ih =>
      cases h' with
      | again hmet' => exact absurd hmet' hmet
      | lost _ hlookup' => simp [hlookup] at hlookup'
      | found _ hlookup' hkind' =>
          obtain rfl := Option.some.inj (hlookup.symm.trans hlookup')
          exact absurd hkind' hkind
      | up _ hlookup' _ hrest' =>
          obtain rfl := Option.some.inj (hlookup.symm.trans hlookup')
          exact ih hrest'

/-- Using up fresh names is remembering the others. -/
theorem climbs_classAbove {names fresh met : List String} {next : Option String}
    (hclosed : ∀ name ∈ P.containerNames, name ∈ names) (hnext : ∀ name ∈ next, name ∈ names)
    (hfresh : ∀ name ∈ names, name ∈ fresh ↔ name ∉ met) :
    P.Climbs met next (P.classAbove fresh next) := by
  -- along the recursion of the walk: every name is either fresh or met
  fun_induction Provider.classAbove P fresh next generalizing met with
  | case1 fresh => exact .top
  | case2 fresh name hname _ hlookup =>
      exact .lost ((hfresh name (hnext name rfl)).1 hname) hlookup
  | case3 fresh name hname _ c hlookup hkind =>
      exact .found ((hfresh name (hnext name rfl)).1 hname) hlookup hkind
  | case4 fresh name hname _ r hlookup hkind ih =>
      refine .up ((hfresh name (hnext name rfl)).1 hname) hlookup hkind (ih ?_ ?_)
      · intro above habove
        exact hclosed above (List.mem_filterMap.2 ⟨r, P.mem_of_lookup hlookup, habove⟩)
      · intro n hn
        rw [Search.mem_without, hfresh n hn, List.mem_cons, not_or, and_comm]
  | case5 fresh name hname =>
      exact .again (not_not.1 (mt (hfresh name (hnext name rfl)).2 hname))

theorem climbs_iff (hmember : e.kind.isMember = true) {answer : Option Entity} :
    P.Climbs [] e.parent answer ↔ answer = P.enclosingClass e := by
  have hclimbs : P.Climbs [] e.parent (P.enclosingClass e) := by
    rw [enclosingClass, if_pos hmember]
    have hclosed : ∀ name ∈ P.containerNames, name ∈ e.parent.toList ++ P.containerNames :=
      fun name => List.mem_append_right _
    have hparent : ∀ name ∈ e.parent, name ∈ e.parent.toList ++ P.containerNames :=
      fun name hname => List.mem_append_left _ (Option.mem_toList.2 hname)
    exact climbs_classAbove hclosed hparent (by simp)
  constructor
  · exact fun h => h.unique hclimbs
  · rintro rfl
    exact hclimbs

theorem unit_unit (P : Provider) (e : Entity) : P.unit (P.unit e) = P.unit e := by
  rw [unit, enclosingClass_unit, Option.getD_none]

/-- The class around a method, field or relation is the first class that the names on the way up
lead to, with nothing missing below it. Nothing else has one: no class is found exactly if the way
up ends, meets a name that leads nowhere or comes to a name again before it meets a class. The
search that stops at the first name met again ends with this answer and no other. So an entity that
has been replaced by its class stays as it is when that is done again. -/
theorem enclosingClass_by_names (P : Provider) (e : Entity) :
    (∀ c, P.enclosingClass e = some c ↔
      e.kind.isMember = true ∧ ∃ k, P.ClassAt e k c ∧ ∀ j < k, P.OtherAt e j) ∧
    (P.enclosingClass e = none ↔ e.kind.isMember = false ∨ P.Classless e) ∧
    (e.kind.isMember = true → ∀ answer, P.Climbs [] e.parent answer ↔ answer = P.enclosingClass e) ∧
    P.unit (P.unit e) = P.unit e := by
  have hclass : ∀ c, P.enclosingClass e = some c ↔
      e.kind.isMember = true ∧ NearestClass P.lookup e c := fun c => enclosingClass_eq_some_iff
  refine ⟨fun c => by rw [hclass, nearestClass_iff], ?_, fun hmember _ => climbs_iff hmember,
    P.unit_unit e⟩
  rw [classless_iff, Option.eq_none_iff_forall_ne_some]
  simp only [ne_eq, hclass, not_and, not_exists]
  cases e.kind.isMember <;> simp

/-- A field in a package in a class that lies in the field, and a field in packages that run in a
circle. -/
example :
    let t : NeighbourTables := {
      entities := [⟨"c", .classDecl, some "f"⟩, ⟨"p", .package, some "c"⟩,
        ⟨"q", .package, some "r"⟩, ⟨"r", .package, some "q"⟩]
      usedBy := fun _ => []
      usersOf := fun _ => []
      children := fun _ => [] }
    t.provider.enclosingClass ⟨"f", .field, some "p"⟩ = some ⟨"c", .classDecl, some "f"⟩ ∧
      t.provider.enclosingClass ⟨"g", .field, some "q"⟩ = none := by
  exact ⟨by cbv, by cbv⟩

end DesignCoupling.Provider
