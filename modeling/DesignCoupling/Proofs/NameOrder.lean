import DesignCoupling.Proofs.EntitySet
import Mathlib.Data.List.Lex
import Mathlib.Data.String.Basic
import Mathlib.Order.Monotone.Basic

/-!
# Names in order

Names are ordered by their code points, compared from the left. UTF-8 is made so that bytes are in
the same order, whatever the length of the characters. A set of entities of which no two share a
name has one listing in this order.
-/

namespace DesignCoupling

def codePoints (name : String) : List Nat := name.toList.map Char.toNat

def utf8 (name : String) : List Nat := name.toUTF8.data.toList.map UInt8.toNat

theorem strictMono_codePoints : StrictMono codePoints := by
  intro a b hab
  exact List.map_lt (fun _ _ hcd => hcd) (String.lt_iff_toList_lt.1 hab)

/-- The bytes of a code point: the first one tells by its size how many follow. -/
def pointBytes (n : Nat) : List Nat :=
  if n < 128 then [n]
  else if n < 2048 then [192 + n / 64, 128 + n % 64]
  else if n < 65536 then [224 + n / 4096, 128 + n / 64 % 64, 128 + n % 64]
  else [240 + n / 262144, 128 + n / 4096 % 64, 128 + n / 64 % 64, 128 + n % 64]

theorem map_toNat_utf8EncodeChar (c : Char) :
    (String.utf8EncodeChar c).map UInt8.toNat = pointBytes c.toNat := by
  have hc : c.toNat < 1114112 := by
    have hvalid : c.toNat < 55296 ∨ 57343 < c.toNat ∧ c.toNat < 1114112 := c.valid
    omega
  unfold String.utf8EncodeChar pointBytes
  simp only [Char.toNat_val]
  split_ifs <;> simp <;> omega

theorem utf8_eq_flatMap (name : String) : utf8 name = (codePoints name).flatMap pointBytes := by
  have hbytes : name.toUTF8.data.toList = name.toList.flatMap String.utf8EncodeChar := by
    simp [String.toUTF8, ← String.utf8Encode_toList, List.utf8Encode]
  rw [utf8, hbytes, List.map_flatMap, codePoints, List.flatMap_map]
  simp only [map_toNat_utf8EncodeChar]

theorem pointBytes_append_lt {m n : Nat} (h : m < n) (x y : List Nat) :
    pointBytes m ++ x < pointBytes n ++ y := by
  unfold pointBytes
  split_ifs <;> simp [List.cons_lt_cons_iff] <;> omega

theorem exists_pointBytes_eq_cons (n : Nat) : ∃ b bs, pointBytes n = b :: bs := by
  unfold pointBytes
  split_ifs <;> simp

theorem flatMap_pointBytes_lt {as bs : List Nat} (h : as < bs) :
    as.flatMap pointBytes < bs.flatMap pointBytes := by
  induction h with
  | @nil n ns =>
      obtain ⟨b, bs, hbytes⟩ := exists_pointBytes_eq_cons n
      rw [List.flatMap_cons, hbytes]
      exact List.nil_lt_cons b _
  | rel hab => exact pointBytes_append_lt hab _ _
  | cons _ ih => exact List.append_left_lt ih

theorem strictMono_utf8 : StrictMono utf8 := by
  intro a b hab
  rw [utf8_eq_flatMap, utf8_eq_flatMap]
  exact flatMap_pointBytes_lt (strictMono_codePoints hab)

namespace EntitySet

/-- Names are compared by their bytes as well as by their code points. -/
theorem byName_eq_mergeSort_utf8 (es : List Entity) :
    byName es = es.mergeSort fun a b => decide (utf8 a.name ≤ utf8 b.name) := by
  unfold byName
  simp only [strictMono_utf8.le_iff_le]

/-- All entities of a set, each once, in some order. -/
structure Lists (s : EntitySet) (es : List Entity) : Prop where
  nodup : es.Nodup
  mem : ∀ x, x ∈ es ↔ x ∈ s

/-- A listing in which names only go up. -/
structure Displays (s : EntitySet) (es : List Entity) : Prop extends s.Lists es where
  ascending : es.Pairwise fun a b => codePoints a.name < codePoints b.name

variable {s : EntitySet} {es es' : List Entity}

theorem lists_elems (s : EntitySet) : s.Lists s.elems := ⟨s.nodup, fun _ => Iff.rfl⟩

theorem Lists.perm (h : s.Lists es) (h' : s.Lists es') : es.Perm es' :=
  (List.perm_ext_iff_of_nodup h.nodup h'.nodup).2 fun x => (h.mem x).trans (h'.mem x).symm

theorem Lists.of_perm (h : s.Lists es) (hperm : es'.Perm es) : s.Lists es' where
  nodup := hperm.nodup_iff.2 h.nodup
  mem x := hperm.mem_iff.trans (h.mem x)

theorem Lists.byName (h : s.Lists es) : s.Lists (byName es) :=
  h.of_perm (List.mergeSort_perm es _)

theorem Lists.displays_byName (h : s.Lists es)
    (hnames : ∀ a ∈ s, ∀ b ∈ s, a.name = b.name → a = b) : s.Displays (EntitySet.byName es) where
  toLists := h.byName
  ascending := by
    refine ((pairwise_byName es).and h.byName.nodup).imp_of_mem ?_
    intro a b ha hb hab
    have hne : a.name ≠ b.name := fun hname =>
      hab.2 (hnames a ((h.byName.mem a).1 ha) b ((h.byName.mem b).1 hb) hname)
    exact strictMono_codePoints (lt_of_le_of_ne hab.1 hne)

/-- Two entities with one name stay in the order in which they came. -/
example :
    byName [⟨"a", .method, none⟩, ⟨"a", .package, none⟩] ≠
      byName [⟨"a", .package, none⟩, ⟨"a", .method, none⟩] := by
  cbv
  decide

theorem Displays.eq (h : s.Displays es) (h' : s.Displays es') : es = es' :=
  h.toLists.perm h'.toLists |>.eq_of_pairwise
    (fun _ _ _ _ hab hba => absurd hab (lt_asymm hba)) h.ascending h'.ascending

end EntitySet

end DesignCoupling
