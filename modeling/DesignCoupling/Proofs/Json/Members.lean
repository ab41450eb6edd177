import DesignCoupling.Proofs.Json.Records
import Mathlib.Data.List.Pairwise
import Mathlib.Data.List.Perm.Basic

/-!
# Members in any order

In a lawful form a member sets its own field and touches no other. So members commute, which makes
the draft independent of their order; what a member does anywhere, it does as well at the end.
-/

namespace DesignCoupling.Json

namespace Field

variable {δ : Type} {field other : Field δ}

/-- The ways in which values set a field. -/
def Sets (field : Field δ) (set : δ → δ) : Prop := ∃ v, field.fill.decode v = some set

/-- Setting one of two fields does not touch the other. -/
structure Independent (field other : Field δ) : Prop where
  keeps : ∀ set, field.Sets set → ∀ d, other.isSet (set d) = other.isSet d
  kept : ∀ set, other.Sets set → ∀ d, field.isSet (set d) = field.isSet d
  comm : ∀ set, field.Sets set → ∀ set', other.Sets set' → ∀ d, set (set' d) = set' (set d)

instance : Std.Symm (@Independent δ) where
  symm _ _ h :=
    { keeps := h.kept
      kept := h.keeps
      comm := fun set hset set' hset' d => (h.comm set' hset' set hset d).symm }

theorem Sets.exists_eq {β : Type} {reader : Reader β} {put : β → δ → δ} {set : δ → δ}
    (hfill : field.fill = reader.map put) (h : field.Sets set) : ∃ b, set = put b := by
  obtain ⟨v, hv⟩ := h
  rw [hfill, Reader.decode, Reader.map] at hv
  cases hread : reader.read v.chars with
  | error fault => simp only [hread] at hv; cases hv
  | ok r => simp only [hread] at hv; cases hv; exact ⟨r.1, rfl⟩

theorem Independent.of_fill {β γ : Type} {reader : Reader β} {reader' : Reader γ}
    {put : β → δ → δ} {put' : γ → δ → δ} (hfill : field.fill = reader.map put)
    (hfill' : other.fill = reader'.map put') (hkeeps : ∀ b d, other.isSet (put b d) = other.isSet d)
    (hkept : ∀ c d, field.isSet (put' c d) = field.isSet d)
    (hcomm : ∀ b c d, put b (put' c d) = put' c (put b d)) : field.Independent other where
  keeps set hset d := by obtain ⟨b, rfl⟩ := hset.exists_eq hfill; exact hkeeps b d
  kept set hset d := by obtain ⟨c, rfl⟩ := hset.exists_eq hfill'; exact hkept c d
  comm set hset set' hset' d := by
    obtain ⟨b, rfl⟩ := hset.exists_eq hfill
    obtain ⟨c, rfl⟩ := hset'.exists_eq hfill'
    exact hcomm b c d

/-- The field is read steadily, and a value sets it. -/
structure Proper (field : Field δ) : Prop where
  steady : field.fill.Steady
  isSet_self : ∀ set, field.Sets set → ∀ d, field.isSet (set d) = true

theorem Proper.of_fill {β : Type} {reader : Reader β} {put : β → δ → δ}
    (hfill : field.fill = reader.map put) {f : Spelling → Option β} (hreader : reader.Decodes f)
    (hput : ∀ b d, field.isSet (put b d) = true) : field.Proper where
  steady := hfill ▸ (hreader.map put).steady
  isSet_self set hset d := by obtain ⟨b, rfl⟩ := hset.exists_eq hfill; exact hput b d

end Field

namespace RecordForm

variable {δ α : Type}

/-- Every field of the form sets itself and nothing else, and none is set at first. -/
structure Lawful (form : RecordForm δ α) : Prop where
  proper : ∀ field ∈ form.fields, field.Proper
  isSet_blank : ∀ field ∈ form.fields, field.isSet form.blank = false
  independent : form.fields.Pairwise Field.Independent

/-- A null under this key leaves a draft as good as without the key. -/
def NullIsAbsent (form : RecordForm δ α) (key : String) : Prop :=
  ∃ field set, form.field? key = some field ∧ field.fill.decode .null = some set ∧
    ∀ d, field.isSet d = false → form.finish (set d) = form.finish d

variable {form : RecordForm δ α}

/-- What a member can do: spoil every draft, leave every draft as it is, or set one field. -/
theorem fillMember_cases (form : RecordForm δ α) (m : Member) :
    (m.1.text? = none ∧ ∀ d, form.fillMember d m = none) ∨
    (∃ key, m.1.text? = some key ∧ form.field? key = none ∧ ∀ d, form.fillMember d m = some d) ∨
    ∃ key field, m.1.text? = some key ∧ form.field? key = some field ∧
      ∀ d, form.fillMember d m =
        if field.isSet d then none else (field.fill.decode m.2).map fun set => set d := by
  cases htext : m.1.text? with
  | none => exact .inl ⟨rfl, fun d => by rw [fillMember, htext]; rfl⟩
  | some key =>
      cases hfield : form.field? key with
      | none =>
          refine .inr (.inl ⟨key, rfl, hfield, fun d => ?_⟩)
          simp only [fillMember, htext, Option.bind_some, hfield]
      | some field =>
          refine .inr (.inr ⟨key, field, rfl, hfield, fun d => ?_⟩)
          simp only [fillMember, htext, Option.bind_some, hfield]

theorem fillMember_of_unknown {m : Member} {key : String} (htext : m.1.text? = some key)
    (hkey : key ∉ form.keys) (d : δ) : form.fillMember d m = some d := by
  have hfield := field?_eq_none_iff.2 hkey
  simp only [fillMember, htext, Option.bind_some, hfield]

theorem fillMember_of_known {m : Member} {key : String} {field : Field δ}
    (htext : m.1.text? = some key) (hfield : form.field? key = some field) (d : δ) :
    form.fillMember d m =
      if field.isSet d then none else (field.fill.decode m.2).map fun set => set d := by
  simp only [fillMember, htext, Option.bind_some, hfield]

@[simp] theorem fillMembers_nil (d : δ) : form.fillMembers d [] = some d := rfl

theorem fillMembers_cons (d : δ) (m : Member) (members : List Member) :
    form.fillMembers d (m :: members) =
      (form.fillMember d m).bind fun d => form.fillMembers d members := by
  rw [fillMembers, List.foldlM_cons]
  rfl

theorem fillMembers_append (d : δ) (before after : List Member) :
    form.fillMembers d (before ++ after) =
      (form.fillMembers d before).bind fun d => form.fillMembers d after := by
  rw [fillMembers, List.foldlM_append]
  rfl

theorem record?_of_spoiled {m : Member} (h : ∀ d, form.fillMember d m = none)
    (before after : List Member) : form.record? (.object (before ++ m :: after)) = none := by
  simp only [record?, fillMembers_append, fillMembers_cons, h, Option.bind_none,
    Option.bind_fun_none]

theorem record?_congr {m m' : Member} (h : ∀ d, form.fillMember d m = form.fillMember d m')
    (before after : List Member) :
    form.record? (.object (before ++ m :: after)) =
      form.record? (.object (before ++ m' :: after)) := by
  simp only [record?, fillMembers_append, fillMembers_cons, h]

theorem fillMembers_of_ignored {m : Member} (h : ∀ d, form.fillMember d m = some d) (d : δ)
    (before after : List Member) :
    form.fillMembers d (before ++ m :: after) = form.fillMembers d (before ++ after) := by
  rw [fillMembers_append, fillMembers_append]
  congr 1
  funext d'
  rw [fillMembers_cons, h d', Option.bind_some]

theorem fillMember_comm_of_independent {m m' : Member} {field other : Field δ}
    (hindependent : field.Independent other)
    (hm : ∀ d, form.fillMember d m =
      if field.isSet d then none else (field.fill.decode m.2).map fun set => set d)
    (hm' : ∀ d, form.fillMember d m' =
      if other.isSet d then none else (other.fill.decode m'.2).map fun set => set d) (d : δ) :
    ((form.fillMember d m).bind fun d => form.fillMember d m') =
      (form.fillMember d m').bind fun d => form.fillMember d m := by
  rw [hm d, hm' d]
  cases hset : field.fill.decode m.2 with
  | none => cases hset' : other.fill.decode m'.2 <;> simp [hm, hset]
  | some set =>
      cases hset' : other.fill.decode m'.2 with
      | none => simp [hm', hset']
      | some set' =>
          have hkeeps := hindependent.keeps set ⟨m.2, hset⟩ d
          have hkept := hindependent.kept set' ⟨m'.2, hset'⟩ d
          have hcomm := hindependent.comm set ⟨m.2, hset⟩ set' ⟨m'.2, hset'⟩ d
          cases hisSet : field.isSet d <;> cases hisSet' : other.isSet d <;>
            simp [hm, hm', hset, hset', hkeeps, hkept, hcomm, hisSet, hisSet']

namespace Lawful

variable (hform : form.Lawful)
include hform

theorem independent_of_ne {field other : Field δ} (hfield : field ∈ form.fields)
    (hother : other ∈ form.fields) (hne : field.key ≠ other.key) : field.Independent other :=
  hform.independent.forall hfield hother fun heq => hne (heq ▸ rfl)

theorem steady : ∀ field ∈ form.fields, field.fill.Steady :=
  fun field hfield => (hform.proper field hfield).steady

theorem fillMember_twice {m m' : Member} {key : String} (htext : m.1.text? = some key)
    (htext' : m'.1.text? = some key) (hkey : key ∈ form.keys) (d : δ) :
    ((form.fillMember d m).bind fun d => form.fillMember d m') = none := by
  cases hfield : form.field? key with
  | none => exact (field?_eq_none_iff.1 hfield hkey).elim
  | some field =>
      rw [fillMember_of_known htext hfield]
      split
      · rfl
      · cases hset : field.fill.decode m.2 with
        | none => rfl
        | some set =>
            have hself := (hform.proper field (mem_of_field? hfield).1).isSet_self set ⟨m.2, hset⟩ d
            rw [Option.map_some, Option.bind_some, fillMember_of_known htext' hfield,
              if_pos hself]

theorem fillMember_comm (m m' : Member) (d : δ) :
    ((form.fillMember d m).bind fun d => form.fillMember d m') =
      (form.fillMember d m').bind fun d => form.fillMember d m := by
  obtain ⟨-, hm⟩ | ⟨-, -, -, hm⟩ | ⟨key, field, htext, hfield, hm⟩ := form.fillMember_cases m
  · simp [hm]
  · simp [hm]
  · obtain ⟨-, hm'⟩ | ⟨-, -, -, hm'⟩ | ⟨key', other, htext', hother, hm'⟩ :=
      form.fillMember_cases m'
    · simp [hm']
    · simp [hm']
    · obtain ⟨hmem, rfl⟩ := mem_of_field? hfield
      obtain ⟨hmem', rfl⟩ := mem_of_field? hother
      by_cases hkey : field.key = other.key
      · have hknown : field.key ∈ form.keys := List.mem_map_of_mem hmem
        rw [hform.fillMember_twice htext (htext'.trans (by rw [hkey])) hknown,
          hform.fillMember_twice (htext'.trans (by rw [hkey])) htext hknown]
      · exact fillMember_comm_of_independent (hform.independent_of_ne hmem hmem' hkey) hm hm' d

/-- The order of the members does not count. -/
theorem fillMembers_perm {members members' : List Member} (h : members.Perm members') (d : δ) :
    form.fillMembers d members = form.fillMembers d members' := by
  induction h generalizing d with
  | nil => rfl
  | cons m _ ih => simp only [fillMembers_cons, ih]
  | swap m m' members =>
      have hswap : ∀ m m' : Member, form.fillMembers d (m :: m' :: members) =
          ((form.fillMember d m).bind fun d => form.fillMember d m').bind fun d =>
            form.fillMembers d members := by
        intro m m'
        rw [fillMembers_cons, Option.bind_assoc]
        simp only [fillMembers_cons]
      rw [hswap, hswap, hform.fillMember_comm]
  | trans _ _ ih ih' => rw [ih, ih']

theorem fillMembers_middle (m : Member) (before after : List Member) (d : δ) :
    form.fillMembers d (before ++ m :: after) =
      (form.fillMembers d (before ++ after)).bind fun d => form.fillMember d m := by
  have hperm : (before ++ m :: after).Perm (before ++ after ++ [m]) :=
    List.perm_middle.trans (List.perm_append_singleton m (before ++ after)).symm
  rw [hform.fillMembers_perm hperm, fillMembers_append]
  congr 1
  funext d'
  rw [fillMembers_cons]
  cases form.fillMember d' m <;> rfl

theorem fillMembers_repeated {m m' : Member} {key : String} {before after : List Member}
    (htext : m.1.text? = some key) (hkey : key ∈ form.keys) (hmem : m' ∈ before ++ after)
    (htext' : m'.1.text? = some key) (d : δ) :
    form.fillMembers d (before ++ m :: after) = none := by
  obtain ⟨before', after', hsplit⟩ := List.append_of_mem hmem
  rw [hform.fillMembers_middle, hsplit, hform.fillMembers_middle, Option.bind_assoc]
  simp only [hform.fillMember_twice htext' htext hkey, Option.bind_fun_none]

theorem isSet_fillMembers {field : Field δ} (hfield : form.field? field.key = some field)
    {members : List Member} (hmembers : ∀ m ∈ members, m.1.text? ≠ some field.key) {d d' : δ}
    (h : form.fillMembers d members = some d') : field.isSet d' = field.isSet d := by
  induction members generalizing d with
  | nil => cases h; rfl
  | cons m members ih =>
      rw [fillMembers_cons, Option.bind_eq_some_iff] at h
      obtain ⟨d₁, hm, hrest⟩ := h
      rw [ih (fun m hm => hmembers m (List.mem_cons_of_mem _ hm)) hrest]
      obtain ⟨-, hcases⟩ | ⟨-, -, -, hcases⟩ | ⟨key, other, htext, hother, hcases⟩ :=
        form.fillMember_cases m
      · rw [hcases d] at hm; cases hm
      · rw [hcases d] at hm; cases hm; rfl
      · rw [hcases d] at hm
        split at hm
        · cases hm
        · obtain ⟨set, hset, rfl⟩ := Option.map_eq_some_iff.1 hm
          obtain ⟨hmem, rfl⟩ := mem_of_field? hother
          have hne : other.key ≠ field.key := by
            intro heq
            exact hmembers m List.mem_cons_self (htext.trans (by rw [heq]))
          exact (hform.independent_of_ne hmem (mem_of_field? hfield).1 hne).keeps set ⟨m.2, hset⟩ d

end Lawful

/-- Members of an object put into another order, a member put in that is no field, or a null put in
or left out where the key has no other value. -/
inductive Rearranges (form : RecordForm δ α) (optional : List String) :
    List Member → List Member → Prop
  | permute {members members' : List Member} (h : members.Perm members') :
      Rearranges form optional members members'
  | insert {before after : List Member} {key : Literal} {name : String} (value : Spelling)
      (htext : key.text? = some name) (hname : name ∉ form.keys) :
      Rearranges form optional (before ++ after) (before ++ (key, value) :: after)
  | addNull {before after : List Member} {key : Literal} {name : String}
      (htext : key.text? = some name) (hname : name ∈ optional)
      (habsent : ∀ m ∈ before ++ after, m.1.text? ≠ some name) :
      Rearranges form optional (before ++ after) (before ++ (key, .null) :: after)
  | removeNull {before after : List Member} {key : Literal} {name : String}
      (htext : key.text? = some name) (hname : name ∈ optional)
      (habsent : ∀ m ∈ before ++ after, m.1.text? ≠ some name) :
      Rearranges form optional (before ++ (key, .null) :: after) (before ++ after)

/-- A second member put in for a key that is a field. -/
inductive Repeats (form : RecordForm δ α) : List Member → List Member → Prop
  | insert {before after : List Member} {key : Literal} {name : String} (value : Spelling)
      (htext : key.text? = some name) (hname : name ∈ form.keys)
      (hpresent : ∃ m ∈ before ++ after, m.1.text? = some name) :
      Repeats form (before ++ after) (before ++ (key, value) :: after)

namespace Lawful

variable (hform : form.Lawful) {optional : List String}
include hform

/-- A null for a key that has no other value leaves the record as it is. -/
theorem record?_null {before after : List Member} {key : Literal} {name : String}
    (htext : key.text? = some name) (hnull : form.NullIsAbsent name)
    (habsent : ∀ m ∈ before ++ after, m.1.text? ≠ some name) :
    form.record? (.object (before ++ (key, .null) :: after)) =
      form.record? (.object (before ++ after)) := by
  obtain ⟨field, set, hfield, hset, hfinish⟩ := hnull
  obtain ⟨hmem, rfl⟩ := mem_of_field? hfield
  rw [record?, record?, hform.fillMembers_middle]
  cases hdraft : form.fillMembers form.blank (before ++ after) with
  | none => rfl
  | some d =>
      have hunset : field.isSet d = false :=
        (hform.isSet_fillMembers hfield habsent hdraft).trans (hform.isSet_blank field hmem)
      have hmember : form.fillMember d (key, .null) = some (set d) := by
        rw [fillMember_of_known htext hfield, hunset, hset]
        rfl
      simp only [Option.bind_some, hmember, hfinish d hunset]

theorem record?_rearranges (hoptional : ∀ key ∈ optional, form.NullIsAbsent key)
    {members members' : List Member} (h : form.Rearranges optional members members') :
    form.record? (.object members) = form.record? (.object members') := by
  cases h with
  | permute h => rw [record?, record?, hform.fillMembers_perm h]
  | insert value htext hname =>
      rw [record?, record?, fillMembers_of_ignored (fillMember_of_unknown htext hname)]
  | addNull htext hname habsent =>
      exact (hform.record?_null htext (hoptional _ hname) habsent).symm
  | removeNull htext hname habsent =>
      exact hform.record?_null htext (hoptional _ hname) habsent

theorem record?_repeats {members members' : List Member} (h : form.Repeats members members') :
    form.record? (.object members') = none := by
  cases h with
  | insert value htext hname hpresent =>
      obtain ⟨m, hm, htext'⟩ := hpresent
      rw [record?, hform.fillMembers_repeated htext hname hm htext', Option.bind_none]

end Lawful

end RecordForm

end DesignCoupling.Json
