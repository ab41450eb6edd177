import DesignCoupling.Document.Writing
import DesignCoupling.Proofs.Document.Decoding
import DesignCoupling.Proofs.Json.Writing

/-!
# Reading what was written

Every document can be written and read back: no text is lost in escapes, what is absent is left out
and comes back as absent, and all lists keep their order.
-/

namespace DesignCoupling

open Json RecordForm

@[simp] theorem Json.Tree.text?_spelling (s : String) : (Tree.text s).spelling.text? = some s := by
  rw [Tree.spelling, Spelling.text?, Literal.text?_ofString]

@[simp] theorem Json.Tree.optionalText?_spelling (s : String) :
    (Tree.text s).spelling.optionalText? = some (some s) := by
  rw [Tree.spelling, Spelling.optionalText?, Spelling.text?, Literal.text?_ofString]
  · rfl
  · simp

@[simp] theorem EntityKind.word?_spelling (kind : EntityKind) :
    kind.tree.spelling.word? ofLabel? = some kind := by
  rw [tree, Tree.spelling, Spelling.word?, Literal.text?_ofString, Option.bind_some,
    ofLabel?_label]

theorem Entity.record?_tree (e : Entity) : form.record? e.tree.spelling = some e := by
  obtain ⟨name, kind, parent⟩ := e
  have hdraft : form.fillMembers {}
      (Tree.memberSpellings ([("name", .text name), ("kind", kind.tree)] ++
        optionalMember "parent" parent)) =
      some { name := some name, kind := some kind, parent := parent.map some } := by
    cases parent <;>
      simp [optionalMember, Tree.memberSpellings, fillMembers_cons, fillMember_name,
        fillMember_kind, fillMember_parent]
  rw [tree, Tree.spelling, record?]
  change (form.fillMembers {} _).bind _ = _
  rw [hdraft]
  cases parent <;> rfl

theorem Usage.record?_tree (u : Usage) : form.record? u.tree.spelling = some u := by
  have hdraft : form.fillMembers {}
      (Tree.memberSpellings [("from", .text u.source), ("to", .text u.target)]) =
      some { source := some u.source, target := some u.target } := by
    simp [Tree.memberSpellings, fillMembers_cons, fillMember_from, fillMember_to]
  rw [tree, Tree.spelling, record?]
  change (form.fillMembers {} _).bind _ = _
  rw [hdraft]
  rfl

theorem Json.Tree.items?_spelling {α : Type} {f : Spelling → Option α} {tree : α → Tree}
    (h : ∀ a, f (tree a).spelling = some a) (as : List α) :
    (Tree.list (as.map tree)).spelling.items? f = some as := by
  rw [Tree.spelling, Tree.itemSpellings_eq_map, Spelling.items?, List.map_map]
  induction as with
  | nil => rfl
  | cons a as ih => simp [h, ih]

namespace Document

theorem record?_tree (doc : Document) : form.record? doc.tree.spelling = some doc := by
  obtain ⟨name, entities, usages⟩ := doc
  have hentities := Tree.items?_spelling Entity.record?_tree entities
  have husages := Tree.items?_spelling Usage.record?_tree usages
  have hdraft : form.fillMembers {}
      (Tree.memberSpellings (optionalMember "name" name ++
        [("entities", .list (entities.map Entity.tree)),
          ("usages", .list (usages.map Usage.tree))])) =
      some { name := name.map some, entities := some entities, usages := some usages } := by
    cases name <;>
      simp [optionalMember, Tree.memberSpellings, fillMembers_cons, fillMember_name,
        fillMember_entities, fillMember_usages, hentities, husages]
  rw [tree, Tree.spelling, record?]
  change (form.fillMembers {} _).bind _ = _
  rw [hdraft]
  cases name <;> rfl

/-- Every document is read back from both of its texts, and what was read from any text is the same
when it is written and read again. -/
theorem reading_undoes_writing :
    (∀ doc : Document, ofText doc.write = .ok doc ∧ ofText doc.tree.toLines = .ok doc) ∧
      ∀ text : String, (ofText text >>= fun doc => ofText doc.write) = ofText text := by
  have hwrite : ∀ doc : Document, ofText doc.write = .ok doc := fun doc =>
    (ofText_eq_ok_iff doc.tree.isText_toText).2 doc.record?_tree
  refine ⟨fun doc => ⟨hwrite doc, (ofText_eq_ok_iff doc.tree.isText_toLines).2 doc.record?_tree⟩,
    fun text => ?_⟩
  cases hread : ofText text with
  | error e => rfl
  | ok doc => exact hwrite doc

end Document

end DesignCoupling
