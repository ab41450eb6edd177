import DesignCoupling.Document.Loading
import DesignCoupling.Log

/-!
# Logged loading

A design is built with a warning for every usage that cannot be linked, and announced when it is
complete.
-/

namespace DesignCoupling.Document

/-- Links the ends of a usage. If one of them is not known, the usage is passed over. -/
def connectLogged (d : Design) (u : Usage) : Logged Design :=
  match d.addUsage u.source u.target with
  | some d => return d
  | none => do
      Logged.tell (.skipped u.source u.target)
      return d

def toDesignLogged (doc : Document) : Logged (Except Defect Design) :=
  match doc.validate with
  | .error defect => return .error defect
  | .ok _ =>
      match doc.entities.foldlM place doc.declare with
      | .error refusal => return .error (.refused refusal)
      | .ok placed => do
          let d ← doc.usages.foldlM connectLogged placed
          Logged.tell (.loaded doc.name d.entityCount d.usageCount)
          return .ok d

theorem value_connectLogged (d : Design) (u : Usage) :
    (connectLogged d u).value = connect d u := by
  unfold connectLogged connect
  cases d.addUsage u.source u.target <;> rfl

theorem value_connectAll (d : Design) (us : List Usage) :
    (us.foldlM connectLogged d).value = us.foldl connect d := by
  induction us generalizing d with
  | nil => rfl
  | cons u us ih =>
      rw [List.foldlM_cons, Logged.value_bind, ih, value_connectLogged, List.foldl_cons]

@[simp] theorem value_toDesignLogged (doc : Document) : doc.toDesignLogged.value = doc.toDesign := by
  unfold toDesignLogged toDesign assemble
  cases doc.validate with
  | error defect => rfl
  | ok =>
      cases doc.entities.foldlM place doc.declare with
      | error refusal => rfl
      | ok placed =>
          simp only [Logged.value_bind, Logged.value_pure, value_connectAll]
          rfl

theorem toDesignLogged_eq_error {doc : Document} {defect : Defect}
    (h : doc.toDesign = .error defect) : doc.toDesignLogged = ⟨.error defect, []⟩ := by
  have hvalue := value_toDesignLogged doc
  rw [h] at hvalue
  revert hvalue
  unfold toDesignLogged
  cases doc.validate with
  | error first =>
      intro hvalue
      rw [← hvalue]
      rfl
  | ok =>
      cases doc.entities.foldlM place doc.declare with
      | error refusal =>
          intro hvalue
          rw [← hvalue]
          rfl
      | ok placed =>
          intro hvalue
          simp only [Logged.value_bind, Logged.value_pure] at hvalue
          cases hvalue

end DesignCoupling.Document
