import DesignCoupling.Json.Reader
import DesignCoupling.Json.Decimal

/-!
# Numerals

A numeral has a whole part without leading zeros, and may have a fraction and an exponent. No
document field holds a number; a numeral is read to pass over it, or to name it in a fault.
-/

namespace DesignCoupling.Json

structure Numeral where
  negative : Bool
  whole : List Char
  fraction : List Char
  exponent : Option (Bool × List Char)
  deriving DecidableEq, Repr

namespace Numeral

/-- The digits at the front of a text, and the text after them. -/
def splitDigits (s : List Char) : List Char × List Char :=
  (s.takeWhile Char.isDigit, s.dropWhile Char.isDigit)

/-- The whole part. At the end of the text the fault has the cause `atEnd`. -/
def readWholePart (atEnd : Cause) (s : List Char) : Reading (List Char) :=
  match s with
  | [] => .error (.before atEnd [])
  | '0' :: rest =>
      match rest with
      | c :: _ => if c.isDigit then .error (.into .badNumber rest) else .ok (['0'], rest)
      | [] => .ok (['0'], rest)
  | c :: rest =>
      if c.isDigit then .ok (c :: (splitDigits rest).1, (splitDigits rest).2)
      else .error (.into .badNumber s)

/-- The fraction, if a point begins one. -/
def readFraction (atEnd : Cause) (s : List Char) : Reading (List Char) :=
  match s with
  | ['.'] => .error (.before atEnd [])
  | '.' :: rest =>
      if (splitDigits rest).1 = [] then .error (.into .badNumber rest)
      else .ok (splitDigits rest)
  | _ => .ok ([], s)

def readExponentDigits (atEnd : Cause) (s : List Char) : Reading (List Char) :=
  match s with
  | [] => .error (.before atEnd [])
  | _ :: _ => if (splitDigits s).1 = [] then .error (.into .badNumber s) else .ok (splitDigits s)

/-- Whether a minus sign stands here, and the text after the sign. -/
def splitSign (s : List Char) : Bool × List Char :=
  match s with
  | '-' :: rest => (true, rest)
  | '+' :: rest => (false, rest)
  | _ => (false, s)

/-- The exponent, if its letter stands here: whether it is negative, and its digits. -/
def readExponent (atEnd : Cause) (s : List Char) : Reading (Option (Bool × List Char)) :=
  match s with
  | [] => .ok (none, [])
  | c :: rest =>
      if c = 'e' ∨ c = 'E' then
        match readExponentDigits atEnd (splitSign rest).2 with
        | .error fault => .error fault
        | .ok (digits, after) => .ok (some ((splitSign rest).1, digits), after)
      else .ok (none, s)

def readUnsigned (atEnd : Cause) (negative : Bool) (s : List Char) : Reading Numeral :=
  match readWholePart atEnd s with
  | .error fault => .error fault
  | .ok (whole, s) =>
      match readFraction atEnd s with
      | .error fault => .error fault
      | .ok (fraction, s) =>
          match readExponent atEnd s with
          | .error fault => .error fault
          | .ok (exponent, s) => .ok (⟨negative, whole, fraction, exponent⟩, s)

theorem length_splitDigits_le (s : List Char) : (splitDigits s).2.length ≤ s.length :=
  (List.dropWhile_sublist Char.isDigit).length_le

theorem length_splitSign_le (s : List Char) : (splitSign s).2.length ≤ s.length := by
  unfold splitSign
  split <;> simp

theorem length_lt_of_readWholePart {atEnd : Cause} {s digits rest : List Char}
    (h : readWholePart atEnd s = .ok (digits, rest)) : rest.length < s.length := by
  unfold readWholePart at h
  split at h
  · simp at h
  · split at h
    · split at h
      · simp at h
      · simp only [Except.ok.injEq, Prod.mk.injEq] at h
        simp [← h.2]
    · simp only [Except.ok.injEq, Prod.mk.injEq] at h
      simp [← h.2]
  · next c s _ =>
      split at h
      · simp only [Except.ok.injEq, Prod.mk.injEq] at h
        have := length_splitDigits_le s
        simp only [List.length_cons, ← h.2]
        omega
      · simp at h

theorem length_le_of_readFraction {atEnd : Cause} {s digits rest : List Char}
    (h : readFraction atEnd s = .ok (digits, rest)) : rest.length ≤ s.length := by
  unfold readFraction at h
  split at h
  · simp at h
  · next s _ =>
      split at h
      · simp at h
      · have := length_splitDigits_le s
        have hrest : (splitDigits s).2 = rest := congrArg Prod.snd (Except.ok.inj h)
        simp only [List.length_cons, ← hrest]
        omega
  · simp_all

theorem length_le_of_readExponentDigits {atEnd : Cause} {s digits rest : List Char}
    (h : readExponentDigits atEnd s = .ok (digits, rest)) : rest.length ≤ s.length := by
  unfold readExponentDigits at h
  split at h
  · simp at h
  · next c s =>
      split at h
      · simp at h
      · have hrest : (splitDigits (c :: s)).2 = rest := congrArg Prod.snd (Except.ok.inj h)
        rw [← hrest]
        exact length_splitDigits_le _

theorem length_le_of_readExponent {atEnd : Cause} {s rest : List Char}
    {e : Option (Bool × List Char)} (h : readExponent atEnd s = .ok (e, rest)) :
    rest.length ≤ s.length := by
  unfold readExponent at h
  split at h
  · simp only [Except.ok.injEq, Prod.mk.injEq] at h
    simp [← h.2]
  · next c s =>
      split at h
      · split at h
        · simp at h
        · next hread =>
            have := length_le_of_readExponentDigits hread
            have := length_splitSign_le s
            simp only [Except.ok.injEq, Prod.mk.injEq] at h
            simp only [List.length_cons, ← h.2]
            omega
      · simp only [Except.ok.injEq, Prod.mk.injEq] at h
        simp [← h.2]

theorem length_lt_of_readUnsigned {atEnd : Cause} {negative : Bool} {s rest : List Char}
    {n : Numeral} (h : readUnsigned atEnd negative s = .ok (n, rest)) :
    rest.length < s.length := by
  unfold readUnsigned at h
  split at h
  · simp at h
  · next hwhole =>
      split at h
      · simp at h
      · next hfraction =>
          split at h
          · simp at h
          · next hexponent =>
              have := length_lt_of_readWholePart hwhole
              have := length_le_of_readFraction hfraction
              have := length_le_of_readExponent hexponent
              simp only [Except.ok.injEq, Prod.mk.injEq] at h
              rw [← h.2]
              omega

/-- Significands are kept below two to the 64th; digits that would pass it are dropped. -/
def significandBound : Nat := 0x10000000000000000

/-- Exponents are kept below two to the 31st. -/
def exponentBound : Nat := 0x80000000

/-- Appends digits to a number while it stays below a bound. Answers the number and the digits
that were dropped. -/
def gather (bound : Nat) : Nat → List Char → Nat × List Char
  | n, [] => (n, [])
  | n, c :: digits =>
      let next := n * 10 + (c.toNat - '0'.toNat)
      if next < bound then gather bound next digits else (n, c :: digits)

/-- Divides by a power of ten, in steps when the power itself is too large. -/
def scaleDown (x : Float) (places : Nat) : Float :=
  if places ≤ 308 then x / Float.ofScientific 1 false places
  else if x == 0 then x
  else scaleDown (x / Float.ofScientific 1 false 308) (places - 308)
termination_by places

/-- `x * 10 ^ exponent`, if that is finite. -/
def scale? (x : Float) (exponent : Int) : Option Float :=
  if exponent < 0 then some (scaleDown x (-exponent).toNat)
  else if exponent ≤ 308 then
    let y := x * Float.ofScientific 1 false exponent.toNat
    if y.isInf then none else some y
  else if x == 0 then some x else none

inductive Value where
  | integer (value : Int)
  | decimal (value : Float)

def Value.found : Value → Found
  | integer n => .integer n
  | decimal x => .decimal (decimalText x)

/-- A whole number is an integer if it fits 64 bits; negative zero and other whole numbers are
binary numbers. -/
def wholeValue (negative : Bool) (n : Nat) : Value :=
  if negative then
    if 0 < n ∧ n ≤ 0x8000000000000000 then .integer (-(n : Int)) else .decimal (-Float.ofNat n)
  else .integer n

/-- The value, or for a value beyond the range the number of exponent digits not looked at. -/
def value (n : Numeral) : Except Nat Value :=
  let (significand, dropped) := gather significandBound 0 n.whole
  if dropped = [] ∧ n.fraction = [] ∧ n.exponent = none then
    .ok (wholeValue n.negative significand)
  else
    let (significand', ignored) := gather significandBound significand n.fraction
    let start : Int := (dropped.length : Int) - ((n.fraction.length - ignored.length : Nat) : Int)
    let signed (x : Float) : Value := .decimal (if n.negative then -x else x)
    let finish (exponent : Int) : Except Nat Value :=
      match scale? (Float.ofNat significand') exponent with
      | some x => .ok (signed x)
      | none => .error 0
    match n.exponent with
    | none => finish start
    | some (negative, digits) =>
        match gather exponentBound 0 digits with
        | (e, []) => finish (if negative then start - e else start + e)
        | (_, _ :: unread) =>
            if significand' = 0 ∨ negative then .ok (signed 0) else .error unread.length

/-- A numeral after its sign, as a fault would name it. -/
def readFound (negative : Bool) (s : List Char) : Reading Found :=
  match readUnsigned .endInValue negative s with
  | .error fault => .error fault
  | .ok (n, rest) =>
      match n.value with
      | .ok v => .ok (v.found, rest)
      | .error unread => .error ⟨.outOfRange, Text.byteCount rest + unread⟩

end Numeral

end DesignCoupling.Json
