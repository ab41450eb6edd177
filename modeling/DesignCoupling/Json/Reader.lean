import DesignCoupling.Json.Fault

/-!
# Readers

A reader takes a value from the front of a text and leaves the rest, or reports a fault. Every
reader takes at least one character, so lists and objects can be read by repetition.
-/

namespace DesignCoupling.Json

/-- A value and the text after it, or a fault. -/
abbrev Reading (α : Type) := Except Fault (α × List Char)

/-- A way to read values that always takes something from the text. -/
structure Reader (α : Type) where
  read : List Char → Reading α
  shorter : ∀ {s a rest}, read s = .ok (a, rest) → rest.length < s.length

def isBlank (c : Char) : Bool := c == ' ' || c == '\t' || c == '\n' || c == '\r'

/-- The text from its first character that is no blank. -/
def skipBlanks (s : List Char) : List Char := s.dropWhile isBlank

theorem length_skipBlanks_le (s : List Char) : (skipBlanks s).length ≤ s.length :=
  (List.dropWhile_sublist isBlank).length_le

/-- The rest of a word whose first letter has been read. -/
def readWord : List Char → List Char → Reading Unit
  | [], s => .ok ((), s)
  | _ :: _, [] => .error (.before .endInValue [])
  | c :: word, d :: s => if d = c then readWord word s else .error (.into .badLiteral (d :: s))

theorem length_le_of_readWord {word s rest : List Char} {u : Unit}
    (h : readWord word s = .ok (u, rest)) : rest.length ≤ s.length := by
  induction word generalizing s with
  | nil =>
      simp only [readWord, Except.ok.injEq, Prod.mk.injEq] at h
      simp [h.2]
  | cons c word ih =>
      cases s with
      | nil => simp [readWord] at h
      | cons d s =>
          simp only [readWord] at h
          split at h
          · exact Nat.le_succ_of_le (ih h)
          · simp at h

namespace Reader

def map {α β : Type} (f : α → β) (reader : Reader α) : Reader β where
  read s :=
    match reader.read s with
    | .ok (a, rest) => .ok (f a, rest)
    | .error fault => .error fault
  shorter := by
    intro s b rest h
    split at h
    · next hread =>
        simp only [Except.ok.injEq, Prod.mk.injEq] at h
        exact h.2 ▸ reader.shorter hread
    · simp at h

end Reader

end DesignCoupling.Json
