import DesignCoupling.Proofs.Json.Decoding

/-!
# Records

Reading an object fills a draft, member by member. In a lawful form a member sets its own field and
no other, so that the order of the members does not count, members that are no fields can be put in
anywhere, and a key that comes twice leaves nothing.
-/

namespace DesignCoupling.Json

namespace RecordForm

variable {δ α : Type} (form : RecordForm δ α)

def keys : List String := form.fields.map Field.key

/-- What a member makes of a draft. Nothing is made of it when its key is no text, when its field
is set already, or when its value is not fit for the field. -/
def fillMember (d : δ) (m : Member) : Option δ :=
  m.1.text?.bind fun key =>
    match form.field? key with
    | none => some d
    | some field =>
        if field.isSet d then none else (field.fill.decode m.2).map fun set => set d

def fillMembers (d : δ) (members : List Member) : Option δ := members.foldlM form.fillMember d

/-- What the items of a list make of a draft: one for each field, or fewer. -/
def fillRow (d : δ) : List (Field δ) → List Spelling → Option δ
  | [], [] => some d
  | [], _ :: _ => none
  | _ :: _, [] => some d
  | field :: fields, v :: items => (field.fill.decode v).bind fun set => fillRow (set d) fields items

/-- The record that a value stands for. -/
def record? : Spelling → Option α
  | .object members =>
      (form.fillMembers form.blank members).bind fun d => (form.finish d).toOption
  | .list items => (fillRow form.blank form.fields items).bind fun d => (form.finish d).toOption
  | _ => none

variable {form}

theorem mem_of_field? {key : String} {field : Field δ} (h : form.field? key = some field) :
    field ∈ form.fields ∧ field.key = key :=
  ⟨List.mem_of_find?_eq_some h, by simpa using List.find?_some h⟩

theorem field?_eq_none_iff {key : String} : form.field? key = none ↔ key ∉ form.keys := by
  simp [field?, keys]

section Reading

variable (hsteady : ∀ field ∈ form.fields, field.fill.Steady)
include hsteady

theorem toOption_readMember (d : δ) {key : Literal} {value : Spelling} {t u v w : List Char}
    (hcolon : Padded t (':' :: u)) (hpadded : Padded u v) (hvalue : value.Begins v w)
    (hend : Ends w) :
    (form.readMember d (key.chars ++ '"' :: t)).toOption =
      (form.fillMember d (key, value)).map fun d => (d, w) := by
  rw [readMember, fillMember]
  rcases reading_cases (toOption_readText key t) with ⟨name, htext, hkey⟩ | ⟨htext, fault, hkey⟩
  · simp only [htext, hkey, Option.bind_some, readColon_of_padded hcolon]
    cases hfield : form.field? name with
    | none =>
        simp only [Spelling.passValue_nil hpadded hvalue hend]
        rfl
    | some field =>
        simp only
        split
        · rfl
        · rcases reading_cases (hsteady field (mem_of_field? hfield).1 hpadded hvalue hend) with
            ⟨set, hset, hfill⟩ | ⟨hset, fault, hfill⟩
          · rw [hset, hfill]
            rfl
          · rw [hset, hfill]
            rfl
  · rw [htext, hkey]
    rfl

end Reading

theorem readMembers_of_closed {d : δ} {isFirst : Bool} {s rest : List Char}
    (h : nextKey isFirst s = .ok (.closed rest)) :
    form.readMembers d isFirst s = .ok (d, rest) := by
  rw [readMembers]
  split <;> simp_all

theorem toOption_readMembers_of_item {d : δ} {isFirst : Bool} {s t : List Char}
    (h : nextKey isFirst s = .ok (.item t)) :
    (form.readMembers d isFirst s).toOption =
      (form.readMember d t).toOption.bind fun r => (form.readMembers r.1 false r.2).toOption := by
  rw [readMembers]
  split
  · simp_all
  · simp_all
  · next t' hnext =>
      obtain rfl : t = t' := by simpa [h] using hnext
      split
      · next hread => rw [hread]; rfl
      · next d' rest hread =>
          have htaken : (form.readMember d t).toOption = some (d', rest) := by rw [hread]; rfl
          simp only [htaken, Option.bind_some]

section Reading

variable (hsteady : ∀ field ∈ form.fields, field.fill.Steady)
include hsteady

theorem toOption_readMembers {members : List Member} {d : δ} {isFirst : Bool}
    {s rest : List Char} (h : Spelling.MembersBegin isFirst members s rest) :
    (form.readMembers d isFirst s).toOption =
      (form.fillMembers d members).map fun d => (d, rest) := by
  induction members generalizing d isFirst s with
  | nil =>
      rw [Spelling.MembersBegin] at h
      rw [readMembers_of_closed (nextKey_of_closing h)]
      rfl
  | cons m members ih =>
      obtain ⟨key, value⟩ := m
      rw [Spelling.MembersBegin] at h
      obtain ⟨t, u, v, w, hlead, hcolon, hpadded, hvalue, hrest⟩ := h
      rw [toOption_readMembers_of_item (nextKey_of_lead hlead),
        toOption_readMember hsteady d hcolon hpadded hvalue hrest.ends, fillMembers,
        List.foldlM_cons]
      cases form.fillMember d (key, value) with
      | none => rfl
      | some d' => exact ih hrest

end Reading

theorem toOption_readRowEnd {isFirst : Bool} {s t : List Char} (h : Lead isFirst s t)
    (ht : Opens t) : (readRowEnd s).toOption = none := by
  cases isFirst with
  | true =>
      have hskip := h.skipBlanks_first ht
      obtain ⟨c, u, rfl, -, hcomma, hclosing, -⟩ := ht
      rw [readRowEnd, hskip]
      split <;> simp_all [Except.toOption]
  | false =>
      obtain ⟨u, hcomma, -⟩ := h.skipBlanks_comma ht
      rw [readRowEnd, hcomma]
      simp only
      split <;> rfl

theorem toOption_readRow {fields : List (Field δ)} (hsteady : ∀ field ∈ fields, field.fill.Steady)
    {items : List Spelling} {d : δ} {isFirst : Bool} {s rest : List Char}
    (h : Spelling.ItemsBegin isFirst items s rest) :
    (readRow d isFirst fields s).toOption = (fillRow d fields items).map fun d => (d, rest) := by
  induction fields generalizing items d isFirst s with
  | nil =>
      cases items with
      | nil =>
          rw [Spelling.ItemsBegin] at h
          rw [readRow, readRowEnd, h.skipBlanks_eq, skipBlanks_cons (by decide)]
          rfl
      | cons v items =>
          rw [Spelling.ItemsBegin] at h
          obtain ⟨t, u, hlead, hv, -⟩ := h
          obtain ⟨fault, herror⟩ := error_of_toOption (toOption_readRowEnd hlead hv.opens)
          rw [readRow, herror]
          rfl
  | cons field fields ih =>
      cases items with
      | nil =>
          rw [Spelling.ItemsBegin] at h
          rw [readRow, nextItem_of_closing h]
          rfl
      | cons v items =>
          rw [Spelling.ItemsBegin] at h
          obtain ⟨t, u, hlead, hv, hrest⟩ := h
          rw [readRow, nextItem_of_lead hlead hv.opens, fillRow]
          rcases reading_cases (hsteady field List.mem_cons_self (Padded.refl _) hv hrest.ends) with
            ⟨set, hset, hfill⟩ | ⟨hset, fault, hfill⟩
          · simp only [hset, hfill, Option.bind_some]
            exact ih (fun f hf => hsteady f (List.mem_cons_of_mem _ hf)) hrest
          · simp only [hset, hfill]
            rfl

theorem toOption_finishObject (r : Reading δ) :
    (form.finishObject r).toOption =
      r.toOption.bind fun q => (form.finish q.1).toOption.map fun a => (a, q.2) := by
  cases r with
  | error fault => rfl
  | ok q =>
      simp only [finishObject, Except.toOption, Option.bind_some]
      cases form.finish q.1 <;> rfl

theorem toOption_finishRow (r : Reading δ) :
    (form.finishRow r).toOption =
      r.toOption.bind fun q => (form.finish q.1).toOption.map fun a => (a, q.2) := by
  cases r with
  | error fault => rfl
  | ok q =>
      simp only [finishRow, Except.toOption, Option.bind_some]
      cases form.finish q.1 <;> rfl

/-- Whichever way a record is written, what the reader makes of it is the record. -/
theorem reader_decodes (hsteady : ∀ field ∈ form.fields, field.fill.Steady) :
    form.reader.Decodes form.record? := by
  intro v s t rest hpadded h hrest
  simp only [reader, Reader.skipBlanks_of_begins hpadded h]
  split
  · obtain ⟨members, rfl, hmembers⟩ := h.object_of_brace
    rw [toOption_finishObject, toOption_readMembers hsteady hmembers, record?]
    cases form.fillMembers form.blank members <;> rfl
  · obtain ⟨items, rfl, hitems⟩ := h.list_of_bracket
    rw [toOption_finishRow, toOption_readRow hsteady hitems, record?]
    cases fillRow form.blank form.fields items <;> rfl
  · next hbrace hbracket =>
      have hrecord : form.record? v = none := by
        cases v with
        | list items =>
            rw [Spelling.Begins] at h
            obtain ⟨u, ht, -⟩ := h
            exact (hbracket u ht).elim
        | object members =>
            rw [Spelling.Begins] at h
            obtain ⟨u, ht, -⟩ := h
            exact (hbrace u ht).elim
        | _ => rfl
      rw [hrecord]
      rfl

theorem fillMember_of_fill {β : Type} {key : Literal} {name : String} {field : Field δ}
    {reader : Reader β} {put : β → δ → δ} {f : Spelling → Option β} (htext : key.text? = some name)
    (hfield : form.field? name = some field) (hfill : field.fill = reader.map put)
    (hreader : reader.Decodes f) (d : δ) (v : Spelling) :
    form.fillMember d (key, v) =
      if field.isSet d then none else (f v).map fun b => put b d := by
  simp only [fillMember, htext, Option.bind_some, hfield, hfill,
    (hreader.map put).decode_eq, Option.map_map, Function.comp_def]

end RecordForm

end DesignCoupling.Json
