import DesignCoupling.Json.StringForm
import DesignCoupling.Json.Numeral

/-!
# Passing over values

Values under keys that nobody asked for are passed over. The brackets that are open are kept in a
list, innermost first, so that nesting has no limit.
-/

namespace DesignCoupling.Json

inductive Bracket where
  | list
  | object
  deriving DecidableEq, Repr

/-- The cause when the text ends inside a bracket. -/
def Bracket.atEnd : Bracket → Cause
  | list => .endInList
  | object => .endInObject

/-- The cause when neither a comma nor the closing bracket follows a value. -/
def Bracket.expected : Bracket → Cause
  | list => .expectedListCommaOrEnd
  | object => .expectedObjectCommaOrEnd

def Bracket.closing : Bracket → Char
  | list => ']'
  | object => '\x7d'

def readColon (s : List Char) : Reading Unit :=
  match skipBlanks s with
  | [] => .error (.before .endInObject [])
  | ':' :: rest => .ok ((), rest)
  | s => .error (.into .expectedColon s)

theorem length_lt_of_readColon {s rest : List Char} {u : Unit}
    (h : readColon s = .ok (u, rest)) : rest.length < s.length := by
  have hle := length_skipBlanks_le s
  unfold readColon at h
  split at h
  · simp at h
  · next heq =>
      simp only [Except.ok.injEq, Prod.mk.injEq] at h
      rw [heq, List.length_cons] at hle
      rw [← h.2]
      omega
  · simp at h

def passKey (s : List Char) : Reading Unit :=
  match skipBlanks s with
  | [] => .error (.before .endInObject [])
  | '"' :: rest =>
      match passChars rest with
      | .error fault => .error fault
      | .ok (_, rest) => readColon rest
  | s => .error (.into .keyNotText s)

theorem length_lt_of_passKey {s rest : List Char} {u : Unit}
    (h : passKey s = .ok (u, rest)) : rest.length < s.length := by
  have hle := length_skipBlanks_le s
  unfold passKey at h
  split at h
  · simp at h
  · next heq =>
      split at h
      · simp at h
      · next hchars =>
          have := length_lt_of_passChars hchars
          have := length_lt_of_readColon h
          rw [heq, List.length_cons] at hle
          omega
  · simp at h

/-- A value without parts has been passed. -/
def passed {α : Type} (r : Reading α) : Reading (Option Bracket) :=
  match r with
  | .error fault => .error fault
  | .ok (_, rest) => .ok (none, rest)

/-- What the front of a value is: a value without parts, which is passed, or an opening bracket. -/
def passFront (s : List Char) : Reading (Option Bracket) :=
  match skipBlanks s with
  | [] => .error (.before .endInValue [])
  | 'n' :: rest => passed (readWord ['u', 'l', 'l'] rest)
  | 't' :: rest => passed (readWord ['r', 'u', 'e'] rest)
  | 'f' :: rest => passed (readWord ['a', 'l', 's', 'e'] rest)
  | '"' :: rest => passed (passChars rest)
  | '[' :: rest => .ok (some .list, rest)
  | '\x7b' :: rest => .ok (some .object, rest)
  | '-' :: rest => passed (Numeral.readUnsigned .badNumber true rest)
  | c :: rest =>
      if c.isDigit then passed (Numeral.readUnsigned .badNumber false (c :: rest))
      else .error (.into .expectedValue (c :: rest))

theorem eq_ok_of_passed {α : Type} {r : Reading α} {b : Option Bracket} {rest : List Char}
    (h : passed r = .ok (b, rest)) : ∃ a, r = .ok (a, rest) := by
  unfold passed at h
  split at h
  · simp at h
  · next a _ =>
      simp only [Except.ok.injEq, Prod.mk.injEq] at h
      exact ⟨a, by rw [h.2]⟩

theorem length_lt_of_passFront {s rest : List Char} {b : Option Bracket}
    (h : passFront s = .ok (b, rest)) : rest.length < s.length := by
  have hle := length_skipBlanks_le s
  have word : ∀ {w t : List Char}, passed (readWord w t) = .ok (b, rest) →
      rest.length ≤ t.length := fun h =>
    let ⟨_, hword⟩ := eq_ok_of_passed h
    length_le_of_readWord hword
  unfold passFront at h
  split at h
  · simp at h
  · next heq => have := word h; rw [heq, List.length_cons] at hle; omega
  · next heq => have := word h; rw [heq, List.length_cons] at hle; omega
  · next heq => have := word h; rw [heq, List.length_cons] at hle; omega
  · next heq =>
      obtain ⟨_, hchars⟩ := eq_ok_of_passed h
      have := length_lt_of_passChars hchars
      rw [heq, List.length_cons] at hle
      omega
  · next heq =>
      simp only [Except.ok.injEq, Prod.mk.injEq] at h
      rw [heq, List.length_cons] at hle
      rw [← h.2]
      omega
  · next heq =>
      simp only [Except.ok.injEq, Prod.mk.injEq] at h
      rw [heq, List.length_cons] at hle
      rw [← h.2]
      omega
  · next heq =>
      obtain ⟨_, hnumber⟩ := eq_ok_of_passed h
      have := Numeral.length_lt_of_readUnsigned hnumber
      rw [heq, List.length_cons] at hle
      omega
  · next heq =>
      split at h
      · obtain ⟨_, hnumber⟩ := eq_ok_of_passed h
        have := Numeral.length_lt_of_readUnsigned hnumber
        rw [heq] at hle
        omega
      · simp at h

mutual

/-- Passes over the value that is due, and all that the open brackets still wait for. -/
def passValue (opened : List Bracket) (s : List Char) : Reading Unit :=
  match h : passFront s with
  | .error fault => .error fault
  | .ok (none, rest) =>
      have := length_lt_of_passFront h
      passOn opened rest
  | .ok (some bracket, rest) =>
      have := length_lt_of_passFront h
      passFirst bracket opened rest
termination_by (s.length, 0)

/-- Passes over the first item of a bracket, or closes it. -/
def passFirst (bracket : Bracket) (opened : List Bracket) (s : List Char) : Reading Unit :=
  match h : skipBlanks s with
  | [] => .error (.before bracket.atEnd [])
  | c :: rest =>
      have : rest.length < s.length := by
        have hle := length_skipBlanks_le s
        rw [h, List.length_cons] at hle
        omega
      if c = bracket.closing then passOn opened rest
      else passItem bracket opened s
termination_by (s.length, 2)

/-- Passes over an item of a bracket: a value, in an object after its key. -/
def passItem (bracket : Bracket) (opened : List Bracket) (s : List Char) : Reading Unit :=
  match bracket with
  | .list => passValue (.list :: opened) s
  | .object =>
      match h : passKey s with
      | .error fault => .error fault
      | .ok (_, rest) =>
          have := length_lt_of_passKey h
          passValue (.object :: opened) rest
termination_by (s.length, 1)

/-- Goes on after a value: closes brackets, and passes over the item after a comma. -/
def passOn (opened : List Bracket) (s : List Char) : Reading Unit :=
  match opened with
  | [] => .ok ((), s)
  | bracket :: opened =>
      match h : skipBlanks s with
      | [] => .error (.before bracket.atEnd [])
      | c :: rest =>
          have : rest.length < s.length := by
            have hle := length_skipBlanks_le s
            rw [h, List.length_cons] at hle
            omega
          if c = ',' then passItem bracket opened rest
          else if c = bracket.closing then passOn opened rest
          else .error (.into bracket.expected (c :: rest))
termination_by (s.length, 0)

end

theorem length_lt_of_passValue {opened : List Bracket} {s rest : List Char} {u : Unit}
    (h : passValue opened s = .ok (u, rest)) : rest.length < s.length := by
  revert h
  refine passValue.induct
    (fun opened s => passValue opened s = .ok (u, rest) → rest.length < s.length)
    (fun bracket opened s => passFirst bracket opened s = .ok (u, rest) → rest.length < s.length)
    (fun bracket opened s => passItem bracket opened s = .ok (u, rest) → rest.length < s.length)
    (fun opened s => passOn opened s = .ok (u, rest) → rest.length ≤ s.length)
    ?_ ?_ ?_ ?_ ?_ ?_ ?_ ?_ ?_ ?_ ?_ ?_ ?_ ?_ opened s
  all_goals intros
  all_goals grind [passValue, passFirst, passItem, passOn]

end DesignCoupling.Json
