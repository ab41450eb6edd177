import DesignCoupling.Entity

/-!
# Sets of entities

A set holds each of its entities once. The order in which it holds them means nothing; for display
a set is listed by name.
-/

namespace DesignCoupling

/-- Entities without repetition. -/
structure EntitySet where
  elems : List Entity
  nodup : elems.Nodup

namespace EntitySet

instance : Membership Entity EntitySet := ⟨fun s e => e ∈ s.elems⟩

instance (e : Entity) (s : EntitySet) : Decidable (e ∈ s) :=
  inferInstanceAs (Decidable (e ∈ s.elems))

theorem mem_def {e : Entity} {s : EntitySet} : e ∈ s ↔ e ∈ s.elems := Iff.rfl

def empty : EntitySet := ⟨[], List.nodup_nil⟩

def size (s : EntitySet) : Nat := s.elems.length

/-- One entity more, unless it is there. -/
def insert (s : EntitySet) (e : Entity) : EntitySet :=
  if h : e ∈ s.elems then s else ⟨e :: s.elems, List.nodup_cons.2 ⟨h, s.nodup⟩⟩

def union (s : EntitySet) (es : List Entity) : EntitySet := es.foldl insert s

def ofList (es : List Entity) : EntitySet := empty.union es

def filter (s : EntitySet) (p : Entity → Bool) : EntitySet :=
  ⟨s.elems.filter p, List.Pairwise.filter p s.nodup⟩

/-- Entities in the order of their names. -/
def byName (es : List Entity) : List Entity := es.mergeSort fun a b => decide (a.name ≤ b.name)

def sorted (s : EntitySet) : List Entity := byName s.elems

@[simp] theorem not_mem_empty (e : Entity) : e ∉ empty := List.not_mem_nil

@[simp] theorem mem_insert {s : EntitySet} {e x : Entity} : x ∈ s.insert e ↔ x = e ∨ x ∈ s := by
  unfold insert
  split
  · next h => exact ⟨.inr, fun hx => hx.elim (fun heq => heq ▸ h) id⟩
  · exact List.mem_cons

@[simp] theorem mem_union {s : EntitySet} {es : List Entity} {x : Entity} :
    x ∈ s.union es ↔ x ∈ s ∨ x ∈ es := by
  induction es generalizing s with
  | nil => simp [union]
  | cons e es ih =>
      have h : s.union (e :: es) = (s.insert e).union es := rfl
      rw [h, ih, mem_insert, List.mem_cons, @or_comm (x = e), or_assoc]

@[simp] theorem mem_ofList {es : List Entity} {x : Entity} : x ∈ ofList es ↔ x ∈ es := by
  simp [ofList]

@[simp] theorem mem_filter {s : EntitySet} {p : Entity → Bool} {x : Entity} :
    x ∈ s.filter p ↔ x ∈ s ∧ p x = true := List.mem_filter

@[simp] theorem length_sorted (s : EntitySet) : s.sorted.length = s.size :=
  List.length_mergeSort _

end EntitySet

end DesignCoupling
