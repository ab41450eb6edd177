import DesignCoupling.Json.Value

/-!
# Records

A record has named fields in a fixed order. It is written as an object, whose members may come in
any order and beside members that are ignored, or as a list of its fields in their order. Fields
are filled into a draft; a finished draft is a value, or lacks a field.
-/

namespace DesignCoupling.Json

/-- A field of a draft: its key, whether it has been filled, and how it is read. -/
structure Field (δ : Type) where
  key : String
  isSet : δ → Bool
  fill : Reader (δ → δ)

/-- The form of a record. Finishing a draft names the first field that is due and absent. -/
structure RecordForm (δ α : Type) where
  title : String
  fields : List (Field δ)
  blank : δ
  finish : δ → Except String α

namespace RecordForm

variable {δ α : Type}

def field? (form : RecordForm δ α) (key : String) : Option (Field δ) :=
  form.fields.find? fun field => field.key == key

/-- The text after the bracket that closes an object, when that is all that is left of it. -/
def afterClosing (s : List Char) : List Char :=
  match skipBlanks s with
  | '\x7d' :: rest => rest
  | s => s

/-- One member of an object after the opening quote of its key: how it changes the draft. -/
def readMember (form : RecordForm δ α) (draft : δ) (s : List Char) : Reading δ :=
  match readText s with
  | .error fault => .error fault
  | .ok (key, s) =>
      match form.field? key with
      | none =>
          match readColon s with
          | .error fault => .error fault
          | .ok (_, s) =>
              match passValue [] s with
              | .error fault => .error fault
              | .ok (_, rest) => .ok (draft, rest)
      | some field =>
          if field.isSet draft then .error (.before (.duplicateField key) (afterClosing s))
          else
            match readColon s with
            | .error fault => .error fault
            | .ok (_, s) =>
                match field.fill.read s with
                | .error fault => .error fault
                | .ok (set, rest) => .ok (set draft, rest)

theorem length_lt_of_readMember {form : RecordForm δ α} {draft draft' : δ} {s rest : List Char}
    (h : form.readMember draft s = .ok (draft', rest)) : rest.length < s.length := by
  unfold readMember at h
  split at h
  · simp at h
  · next hkey =>
      have := length_lt_of_readText hkey
      split at h
      · split at h
        · simp at h
        · next hcolon =>
            have := length_lt_of_readColon hcolon
            split at h
            · simp at h
            · next hpass =>
                have := length_lt_of_passValue hpass
                simp only [Except.ok.injEq, Prod.mk.injEq] at h
                rw [← h.2]
                omega
      · split at h
        · simp at h
        · split at h
          · simp at h
          · next hcolon =>
              have := length_lt_of_readColon hcolon
              split at h
              · simp at h
              · next hfill =>
                  have := Reader.shorter _ hfill
                  simp only [Except.ok.injEq, Prod.mk.injEq] at h
                  rw [← h.2]
                  omega

/-- The members of an object whose bracket has been read. -/
def readMembers (form : RecordForm δ α) (draft : δ) (isFirst : Bool) (s : List Char) : Reading δ :=
  match h : nextKey isFirst s with
  | .error fault => .error fault
  | .ok (.closed rest) => .ok (draft, rest)
  | .ok (.item t) =>
      match h' : form.readMember draft t with
      | .error fault => .error fault
      | .ok (draft, rest) =>
          have : rest.length < s.length :=
            Nat.lt_trans (length_lt_of_readMember h') ((nextKey_length h).1 t rfl)
          form.readMembers draft false rest
termination_by s.length

theorem length_lt_of_readMembers {form : RecordForm δ α} {draft draft' : δ} {isFirst : Bool}
    {s rest : List Char} (h : form.readMembers draft isFirst s = .ok (draft', rest)) :
    rest.length < s.length := by
  fun_induction readMembers form draft isFirst s with
  | case1 => simp at h
  | case2 draft _ s t hnext =>
      simp only [Except.ok.injEq, Prod.mk.injEq] at h
      exact h.2 ▸ (nextKey_length hnext).2 t rfl
  | case3 => simp at h
  | case4 _ _ _ _ _ _ _ _ hlt ih => exact Nat.lt_trans (ih h) hlt

/-- The bracket after the last field of a list. -/
def readRowEnd (s : List Char) : Reading Unit :=
  match skipBlanks s with
  | [] => .error (.before .endInList [])
  | ']' :: rest => .ok ((), rest)
  | ',' :: rest =>
      match skipBlanks rest with
      | ']' :: rest => .error (.into .trailingComma (']' :: rest))
      | rest => .error (.into .trailingCharacters rest)
  | s => .error (.into .trailingCharacters s)

/-- Fields in their order, in a list whose bracket has been read. The list may end early. -/
def readRow (draft : δ) (isFirst : Bool) : List (Field δ) → List Char → Reading δ
  | [], s =>
      match readRowEnd s with
      | .error fault => .error fault
      | .ok (_, rest) => .ok (draft, rest)
  | field :: fields, s =>
      match nextItem isFirst s with
      | .error fault => .error fault
      | .ok (.closed rest) => .ok (draft, rest)
      | .ok (.item t) =>
          match field.fill.read t with
          | .error fault => .error fault
          | .ok (set, rest) => readRow (set draft) false fields rest

theorem length_lt_of_readRow {draft draft' : δ} {isFirst : Bool} {fields : List (Field δ)}
    {s rest : List Char} (h : readRow draft isFirst fields s = .ok (draft', rest)) :
    rest.length < s.length := by
  induction fields generalizing draft isFirst s with
  | nil =>
      have hle := length_skipBlanks_le s
      unfold readRow readRowEnd at h
      grind
  | cons field fields ih =>
      unfold readRow at h
      split at h
      · simp at h
      · next t hnext =>
          simp only [Except.ok.injEq, Prod.mk.injEq] at h
          exact h.2 ▸ (nextItem_length hnext).2 t rfl
      · next t hnext =>
          split at h
          · simp at h
          · next hfill =>
              have := (nextItem_length hnext).1 t rfl
              have := Reader.shorter _ hfill
              have := ih h
              omega

/-- What a record's title says of its length. -/
def lengthTitle (form : RecordForm δ α) : String :=
  form.title ++ " with " ++ toString form.fields.length ++ " elements"

/-- The value of a record read as an object. -/
def finishObject (form : RecordForm δ α) (r : Reading δ) : Reading α :=
  match r with
  | .error fault => .error fault
  | .ok (draft, rest) =>
      match form.finish draft with
      | .ok a => .ok (a, rest)
      | .error key => .error (.before (.missingField key) rest)

/-- The value of a record read as a list. -/
def finishRow (form : RecordForm δ α) (r : Reading δ) : Reading α :=
  match r with
  | .error fault => .error fault
  | .ok (draft, rest) =>
      match form.finish draft with
      | .ok a => .ok (a, rest)
      | .error key =>
          let length := form.fields.findIdx fun field => field.key == key
          .error (.before (.wrongLength length form.lengthTitle) rest)

/-- A record, as an object or as a list. -/
def reader (form : RecordForm δ α) : Reader α where
  read s :=
    match skipBlanks s with
    | '\x7b' :: rest => form.finishObject (form.readMembers form.blank true rest)
    | '[' :: rest => form.finishRow (readRow form.blank true form.fields rest)
    | s => .error (mismatch form.title s)
  shorter := by
    intro s a rest h
    have hle := length_skipBlanks_le s
    split at h
    · next heq =>
        rw [heq, List.length_cons] at hle
        unfold finishObject at h
        split at h
        · simp at h
        · next hread =>
            have := length_lt_of_readMembers hread
            split at h
            · simp only [Except.ok.injEq, Prod.mk.injEq] at h
              rw [← h.2]
              omega
            · simp at h
    · next heq =>
        rw [heq, List.length_cons] at hle
        unfold finishRow at h
        split at h
        · simp at h
        · next hread =>
            have := length_lt_of_readRow hread
            split at h
            · simp only [Except.ok.injEq, Prod.mk.injEq] at h
              rw [← h.2]
              omega
            · simp at h
    · simp at h

end RecordForm

end DesignCoupling.Json
