import DesignCoupling.Proofs.Document.RoundTrip
import Mathlib.Logic.Relation

/-!
# Presentation

What a document says does not depend on how its text presents it: on blanks, on the order of members,
on members that are no fields, or on nulls in place of what is absent. A field that is given twice is
an error in any of its objects. The key of a member must be a text, even if it is no field; a key
with half of a surrogate pair is none.
-/

namespace DesignCoupling.Document

open Json RecordForm

/-- The value of a document with the members changed of one object: of the document itself, of an
entity in its list, or of a usage in its list. -/
inductive Altered (document entity usage : List Member → List Member → Prop) :
    Spelling → Spelling → Prop
  | document {members members' : List Member} (h : document members members') :
      Altered document entity usage (.object members) (.object members')
  | entity {before after : List Member} {key : Literal} {earlier later : List Spelling}
      {members members' : List Member} (hkey : key.text? = some "entities")
      (h : entity members members') :
      Altered document entity usage
        (.object (before ++ (key, .list (earlier ++ .object members :: later)) :: after))
        (.object (before ++ (key, .list (earlier ++ .object members' :: later)) :: after))
  | usage {before after : List Member} {key : Literal} {earlier later : List Spelling}
      {members members' : List Member} (hkey : key.text? = some "usages")
      (h : usage members members') :
      Altered document entity usage
        (.object (before ++ (key, .list (earlier ++ .object members :: later)) :: after))
        (.object (before ++ (key, .list (earlier ++ .object members' :: later)) :: after))

/-- The same document in another presentation. The name of the document and the parents of its
entities may be null. -/
def Restyled : Spelling → Spelling → Prop :=
  Altered (form.Rearranges ["name"]) (Entity.form.Rearranges ["parent"]) (Usage.form.Rearranges [])

/-- A field of one of the objects is given again. -/
def Doubled : Spelling → Spelling → Prop :=
  Altered form.Repeats Entity.form.Repeats Usage.form.Repeats

section Items

variable {α : Type} {f : Spelling → Option α} (earlier later : List Spelling)

theorem items?_congr {x y : Spelling} (h : f x = f y) :
    (Spelling.list (earlier ++ x :: later)).items? f =
      (Spelling.list (earlier ++ y :: later)).items? f := by
  simp only [Spelling.items?, List.mapM_append, List.mapM_cons, h]

theorem items?_eq_none {x : Spelling} (h : f x = none) :
    (Spelling.list (earlier ++ x :: later)).items? f = none := by
  simp [Spelling.items?, List.mapM_append, List.mapM_cons, h]

end Items

theorem record?_restyled {v v' : Spelling} (h : Restyled v v') :
    form.record? v = form.record? v' := by
  cases h with
  | document h => exact form_lawful.record?_rearranges (by simpa using nullIsAbsent_name) h
  | entity hkey h =>
      have hentity := Entity.form_lawful.record?_rearranges
        (by simpa using Entity.nullIsAbsent_parent) h
      refine record?_congr (fun d => ?_) _ _
      rw [fillMember_entities d _ hkey, fillMember_entities d _ hkey, items?_congr _ _ hentity]
  | usage hkey h =>
      have husage := Usage.form_lawful.record?_rearranges (by simp) h
      refine record?_congr (fun d => ?_) _ _
      rw [fillMember_usages d _ hkey, fillMember_usages d _ hkey, items?_congr _ _ husage]

theorem record?_doubled {v v' : Spelling} (h : Doubled v v') : form.record? v' = none := by
  cases h with
  | document h => exact form_lawful.record?_repeats h
  | entity hkey h =>
      have hentity := Entity.form_lawful.record?_repeats h
      refine record?_of_spoiled (fun d => ?_) _ _
      rw [fillMember_entities d _ hkey, items?_eq_none _ _ hentity, Option.map_none, ite_self]
  | usage hkey h =>
      have husage := Usage.form_lawful.record?_repeats h
      refine record?_of_spoiled (fun d => ?_) _ _
      rw [fillMember_usages d _ hkey, items?_eq_none _ _ husage, Option.map_none, ite_self]

theorem record?_of_restyled {v v' : Spelling} (h : Relation.ReflTransGen Restyled v v') :
    form.record? v = form.record? v' := by
  induction h with
  | refl => rfl
  | tail _ hstep ih => rw [ih, record?_restyled hstep]

/-- All texts in which a document is presented in some way say the same document, and a text in which
a field is given twice says none. -/
theorem presentation_ignored {v v' : Spelling} {text text' : String}
    (htext : v.IsText text.toList) (htext' : v'.IsText text'.toList) :
    (Relation.ReflTransGen Restyled v v' → ∀ doc, ofText text = .ok doc → ofText text' = .ok doc) ∧
      (Doubled v v' → ∃ e, ofText text' = .error (.malformed e)) := by
  refine ⟨fun hrestyled doc hread => ?_, fun hdoubled => ?_⟩
  · rw [ofText_eq_ok_iff htext, record?_of_restyled hrestyled] at hread
    exact (ofText_eq_ok_iff htext').2 hread
  · exact ofText_of_record?_eq_none htext' (record?_doubled hdoubled)

/-- A document whose only entity has these members. -/
def withMembers (members : List Member) : Spelling :=
  .object [(.ofString "entities", .list [.object members]), (.ofString "usages", .list [])]

theorem altered_withMembers {document entity usage : List Member → List Member → Prop}
    {members members' : List Member} (h : entity members members') :
    Altered document entity usage (withMembers members) (withMembers members') :=
  @Altered.entity document entity usage [] [(.ofString "usages", .list [])]
    (.ofString "entities") [] [] members members' (Literal.text?_ofString _) h

/-- A class as it is written. -/
def nameMember : Member := (.ofString "name", .text (.ofString "A"))

def kindMember : Member := (.ofString "kind", .text (.ofString "class"))

def loneClass : Document := ⟨none, [⟨"A", .classDecl, none⟩], []⟩

/-- A class comes out the same when its kind is given before its name and when it has a note, and
not at all when it has two names. -/
theorem presentation_loneClass :
    ofText (String.ofList (withMembers [kindMember, (.ofString "note", .list [.null]),
        nameMember]).chars) = .ok loneClass ∧
      ∃ e, ofText (String.ofList (withMembers [nameMember, kindMember, nameMember]).chars) =
        .error (.malformed e) := by
  have hplain : (withMembers [nameMember, kindMember]).IsText loneClass.write.toList :=
    loneClass.tree.isText_toText
  have hread : ofText loneClass.write = .ok loneClass :=
    (ofText_eq_ok_iff loneClass.tree.isText_toText).2 loneClass.record?_tree
  have htext : ∀ v : Spelling, v.IsText (String.ofList v.chars).toList := fun v => by
    rw [String.toList_ofList]
    exact v.isText_chars
  have hswap : Restyled (withMembers [nameMember, kindMember])
      (withMembers [kindMember, nameMember]) :=
    altered_withMembers (.permute (List.Perm.swap _ _ _))
  have hnote : Restyled (withMembers ([kindMember] ++ [nameMember]))
      (withMembers ([kindMember] ++ (.ofString "note", .list [.null]) :: [nameMember])) :=
    altered_withMembers (.insert _ (Literal.text?_ofString "note") (by decide))
  have hname : Doubled (withMembers ([nameMember, kindMember] ++ []))
      (withMembers ([nameMember, kindMember] ++ nameMember :: [])) :=
    altered_withMembers (.insert _ (Literal.text?_ofString "name") (by decide)
      ⟨nameMember, by simp, Literal.text?_ofString "name"⟩)
  exact ⟨(presentation_ignored hplain (htext _)).1 (.head hswap (.single hnote)) _ hread,
    (presentation_ignored hplain (htext _)).2 hname⟩

/-- The first half of a surrogate pair, without the second. -/
def halfPair : Literal := [.unit 'd' '8' '0' '0' 0xd800 (by decide)]

/-- A member is put into an object that is a document, with a key that is no field because it is no
text. The object is a document no more. -/
theorem halfPair_refused :
    (Spelling.object []).IsText "\x7b\x7d".toList ∧
      ofText "\x7b\x7d" = .ok ⟨none, [], []⟩ ∧
      (∀ name ∈ form.keys, halfPair.text? ≠ some name) ∧
      (Spelling.object ([] ++ (halfPair, .null) :: [])).IsText "\x7b\"\\ud800\":null\x7d".toList ∧
      ∃ e, ofText "\x7b\"\\ud800\":null\x7d" = .error (.malformed e) := by
  have hempty : (Spelling.object []).IsText "\x7b\x7d".toList := Spelling.isText_chars _
  have hmember : (Spelling.object ([] ++ (halfPair, .null) :: [])).IsText
      "\x7b\"\\ud800\":null\x7d".toList := Spelling.isText_chars _
  have hkey : halfPair.text? = none := rfl
  refine ⟨hempty, (ofText_eq_ok_iff hempty).2 rfl, fun name _ => ?_, hmember,
    ofText_of_record?_eq_none hmember ?_⟩
  · rw [hkey]
    simp
  · exact record?_of_spoiled (fun d => by rw [fillMember, hkey, Option.bind_none]) _ _

end DesignCoupling.Document
