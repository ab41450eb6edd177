import DesignCoupling.Document.Loading
import DesignCoupling.Proofs.Json.Members

/-!
# Decoding documents

The forms of entities, usages and documents are lawful, so what is made of the text of a document
is a function of the value that is written there.
-/

namespace DesignCoupling

open Json

open RecordForm

theorem EntityKind.reader_decodes : reader.Decodes (Spelling.word? ofLabel?) := Reader.word_decodes

namespace Entity

theorem form_lawful : form.Lawful where
  proper := by
    simp only [form, List.forall_mem_cons]
    exact ⟨.of_fill rfl Reader.text_decodes fun _ _ => rfl,
      .of_fill rfl EntityKind.reader_decodes fun _ _ => rfl,
      .of_fill rfl Reader.optionalText_decodes fun _ _ => rfl, by simp⟩
  isSet_blank := by simp [form]
  independent := by
    simp only [form, List.pairwise_cons, List.forall_mem_cons]
    exact ⟨⟨.of_fill rfl rfl (fun _ _ => rfl) (fun _ _ => rfl) fun _ _ _ => rfl,
        .of_fill rfl rfl (fun _ _ => rfl) (fun _ _ => rfl) fun _ _ _ => rfl, by simp⟩,
      ⟨.of_fill rfl rfl (fun _ _ => rfl) (fun _ _ => rfl) fun _ _ _ => rfl, by simp⟩, by simp⟩

theorem reader_decodes : reader.Decodes form.record? :=
  RecordForm.reader_decodes form_lawful.steady

section Members

variable {key : Literal} (d : Draft) (v : Spelling)

theorem fillMember_name (h : key.text? = some "name") :
    form.fillMember d (key, v) =
      if d.name.isSome then none else v.text?.map fun a => { d with name := some a } :=
  fillMember_of_fill h (rfl : form.field? "name" = some _) rfl Reader.text_decodes d v

theorem fillMember_kind (h : key.text? = some "kind") :
    form.fillMember d (key, v) =
      if d.kind.isSome then none
      else (v.word? EntityKind.ofLabel?).map fun a => { d with kind := some a } :=
  fillMember_of_fill h (rfl : form.field? "kind" = some _) rfl EntityKind.reader_decodes d v

theorem fillMember_parent (h : key.text? = some "parent") :
    form.fillMember d (key, v) =
      if d.parent.isSome then none else v.optionalText?.map fun a => { d with parent := some a } :=
  fillMember_of_fill h (rfl : form.field? "parent" = some _) rfl Reader.optionalText_decodes d v

end Members

theorem nullIsAbsent_parent : form.NullIsAbsent "parent" := by
  refine ⟨_, _, rfl, (Reader.optionalText_decodes.map _).decode_eq .null, ?_⟩
  intro d hd
  obtain ⟨name, kind, parent⟩ := d
  cases parent with
  | none => rfl
  | some _ => cases hd

end Entity

namespace Usage

theorem form_lawful : form.Lawful where
  proper := by
    simp only [form, List.forall_mem_cons]
    exact ⟨.of_fill rfl Reader.text_decodes fun _ _ => rfl,
      .of_fill rfl Reader.text_decodes fun _ _ => rfl, by simp⟩
  isSet_blank := by simp [form]
  independent := by
    simp only [form, List.pairwise_cons, List.forall_mem_cons]
    exact ⟨⟨.of_fill rfl rfl (fun _ _ => rfl) (fun _ _ => rfl) fun _ _ _ => rfl, by simp⟩,
      by simp⟩

theorem reader_decodes : reader.Decodes form.record? :=
  RecordForm.reader_decodes form_lawful.steady

section Members

variable {key : Literal} (d : Draft) (v : Spelling)

theorem fillMember_from (h : key.text? = some "from") :
    form.fillMember d (key, v) =
      if d.source.isSome then none else v.text?.map fun a => { d with source := some a } :=
  fillMember_of_fill h (rfl : form.field? "from" = some _) rfl Reader.text_decodes d v

theorem fillMember_to (h : key.text? = some "to") :
    form.fillMember d (key, v) =
      if d.target.isSome then none else v.text?.map fun a => { d with target := some a } :=
  fillMember_of_fill h (rfl : form.field? "to" = some _) rfl Reader.text_decodes d v

end Members

end Usage

namespace Document

theorem form_lawful : form.Lawful where
  proper := by
    simp only [form, List.forall_mem_cons]
    exact ⟨.of_fill rfl Reader.optionalText_decodes fun _ _ => rfl,
      .of_fill rfl (Reader.list_decodes Entity.reader_decodes) fun _ _ => rfl,
      .of_fill rfl (Reader.list_decodes Usage.reader_decodes) fun _ _ => rfl, by simp⟩
  isSet_blank := by simp [form]
  independent := by
    simp only [form, List.pairwise_cons, List.forall_mem_cons]
    exact ⟨⟨.of_fill rfl rfl (fun _ _ => rfl) (fun _ _ => rfl) fun _ _ _ => rfl,
        .of_fill rfl rfl (fun _ _ => rfl) (fun _ _ => rfl) fun _ _ _ => rfl, by simp⟩,
      ⟨.of_fill rfl rfl (fun _ _ => rfl) (fun _ _ => rfl) fun _ _ _ => rfl, by simp⟩, by simp⟩

theorem reader_decodes : reader.Decodes form.record? :=
  RecordForm.reader_decodes form_lawful.steady

section Members

variable {key : Literal} (d : Draft) (v : Spelling)

theorem fillMember_name (h : key.text? = some "name") :
    form.fillMember d (key, v) =
      if d.name.isSome then none else v.optionalText?.map fun a => { d with name := some a } :=
  fillMember_of_fill h (rfl : form.field? "name" = some _) rfl Reader.optionalText_decodes d v

theorem fillMember_entities (h : key.text? = some "entities") :
    form.fillMember d (key, v) =
      if d.entities.isSome then none
      else (v.items? Entity.form.record?).map fun a => { d with entities := some a } :=
  fillMember_of_fill h (rfl : form.field? "entities" = some _) rfl
    (Reader.list_decodes Entity.reader_decodes) d v

theorem fillMember_usages (h : key.text? = some "usages") :
    form.fillMember d (key, v) =
      if d.usages.isSome then none
      else (v.items? Usage.form.record?).map fun a => { d with usages := some a } :=
  fillMember_of_fill h (rfl : form.field? "usages" = some _) rfl
    (Reader.list_decodes Usage.reader_decodes) d v

end Members

theorem nullIsAbsent_name : form.NullIsAbsent "name" := by
  refine ⟨_, _, rfl, (Reader.optionalText_decodes.map _).decode_eq .null, ?_⟩
  intro d hd
  obtain ⟨name, entities, usages⟩ := d
  cases name with
  | none => rfl
  | some _ => cases hd

/-- The document of a text is the record that its value stands for. -/
theorem toOption_ofText {v : Spelling} {text : String} (h : v.IsText text.toList) :
    (ofText text).toOption = form.record? v := by
  have hread := reader_decodes.toOption_readWhole h
  rw [ofText, parse, ← hread]
  cases reader.readWhole text <;> rfl

theorem ofText_of_record?_eq_none {v : Spelling} {text : String} (h : v.IsText text.toList)
    (hnone : form.record? v = none) : ∃ e, ofText text = .error (.malformed e) := by
  have hread := (reader_decodes.toOption_readWhole h).trans hnone
  obtain ⟨e, herror⟩ := error_of_toOption hread
  exact ⟨e, by rw [ofText, parse, herror]; rfl⟩

theorem ofText_eq_ok_iff {v : Spelling} {text : String} (h : v.IsText text.toList)
    {doc : Document} : ofText text = .ok doc ↔ form.record? v = some doc := by
  rw [← toOption_ofText h]
  cases ofText text <;> simp [Except.toOption]

end Document

end DesignCoupling
