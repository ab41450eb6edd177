import DesignCoupling.Json.Reader

/-!
# String literals

A string stands in double quotes. Writing escapes quotes, backslashes and the characters below the
blank, and nothing else. Reading knows all escapes of the format and insists that surrogates come
in pairs; passing over a string that nobody asked for checks its shape only.
-/

namespace DesignCoupling.Json

def hexDigit (n : Nat) : Char := Nat.digitChar n

def encodeChar (c : Char) : List Char :=
  match c with
  | '"' => ['\\', '"']
  | '\\' => ['\\', '\\']
  | '\x08' => ['\\', 'b']
  | '\x0c' => ['\\', 'f']
  | '\n' => ['\\', 'n']
  | '\r' => ['\\', 'r']
  | '\t' => ['\\', 't']
  | c => if c < ' ' then ['\\', 'u', '0', '0', hexDigit (c.toNat / 16), hexDigit (c.toNat % 16)]
    else [c]

def encode (s : String) : List Char := '"' :: s.toList.flatMap encodeChar ++ ['"']

def hexValue? (c : Char) : Option Nat :=
  if '0' ≤ c ∧ c ≤ '9' then some (c.toNat - '0'.toNat)
  else if 'a' ≤ c ∧ c ≤ 'f' then some (c.toNat - 'a'.toNat + 10)
  else if 'A' ≤ c ∧ c ≤ 'F' then some (c.toNat - 'A'.toNat + 10)
  else none

def hex4? (a b c d : Char) : Option Nat := do
  let a ← hexValue? a
  let b ← hexValue? b
  let c ← hexValue? c
  let d ← hexValue? d
  return ((a * 16 + b) * 16 + c) * 16 + d

/-- The fault of a text that does not begin with four hexadecimal digits. Four bytes are looked
at, or all that is left. -/
def hexFault (s : List Char) : Fault :=
  if Text.byteCount s < 4 then .before .endInString [] else ⟨.badEscape, Text.byteCount s - 4⟩

def readHex4 (s : List Char) : Reading Nat :=
  match s with
  | a :: b :: c :: d :: rest =>
      match hex4? a b c d with
      | some n => .ok (n, rest)
      | none => .error (hexFault s)
  | _ => .error (hexFault s)

/-- The first half of a character outside the basic plane. -/
def isHighSurrogate (n : Nat) : Bool := 0xD800 ≤ n && n ≤ 0xDBFF

/-- The second half of a character outside the basic plane. -/
def isLowSurrogate (n : Nat) : Bool := 0xDC00 ≤ n && n ≤ 0xDFFF

/-- The character that two surrogates stand for. -/
def surrogatePair (high low : Nat) : Char :=
  Char.ofNat ((high - 0xD800) * 0x400 + (low - 0xDC00) + 0x10000)

/-- The second half of a pair whose first half is `high`. -/
def readLowSurrogate (high : Nat) (s : List Char) : Reading Char :=
  match s with
  | [] => .error (.before .endInString [])
  | ['\\'] => .error (.before .endInString [])
  | '\\' :: 'u' :: s =>
      match readHex4 s with
      | .error fault => .error fault
      | .ok (low, rest) =>
          if isLowSurrogate low then .ok (surrogatePair high low, rest)
          else .error (.before .loneSurrogate rest)
  | '\\' :: s => .error (.into .cutSurrogatePair s)
  | s => .error (.into .cutSurrogatePair s)

/-- A character given by its code point, or by a pair of surrogates. -/
def readCodePoint (s : List Char) : Reading Char :=
  match readHex4 s with
  | .error fault => .error fault
  | .ok (n, rest) =>
      if isLowSurrogate n then .error (.before .loneSurrogate rest)
      else if isHighSurrogate n then readLowSurrogate n rest
      else .ok (Char.ofNat n, rest)

/-- The character that a letter after a backslash stands for. -/
def plainEscape? (c : Char) : Option Char :=
  match c with
  | '"' => some '"'
  | '\\' => some '\\'
  | '/' => some '/'
  | 'b' => some '\x08'
  | 'f' => some '\x0c'
  | 'n' => some '\n'
  | 'r' => some '\r'
  | 't' => some '\t'
  | _ => none

/-- What stands after a backslash. -/
def readEscape (s : List Char) : Reading Char :=
  match s with
  | [] => .error (.before .endInString [])
  | 'u' :: s => readCodePoint s
  | c :: rest =>
      match plainEscape? c with
      | some d => .ok (d, rest)
      | none => .error (.into .badEscape s)

/-- The same, without asking which character it is. -/
def passEscape (s : List Char) : Reading Unit :=
  match s with
  | [] => .error (.before .endInString [])
  | 'u' :: s =>
      match readHex4 s with
      | .error fault => .error fault
      | .ok (_, rest) => .ok ((), rest)
  | c :: rest =>
      match plainEscape? c with
      | some _ => .ok ((), rest)
      | none => .error (.into .badEscape s)

theorem length_lt_of_readHex4 {s rest : List Char} {n : Nat} (h : readHex4 s = .ok (n, rest)) :
    rest.length < s.length := by
  unfold readHex4 at h
  split at h
  · split at h
    · simp only [Except.ok.injEq, Prod.mk.injEq] at h
      simp only [List.length_cons, ← h.2]
      omega
    · simp at h
  · simp at h

theorem length_lt_of_readLowSurrogate {high : Nat} {s rest : List Char} {c : Char}
    (h : readLowSurrogate high s = .ok (c, rest)) : rest.length < s.length := by
  unfold readLowSurrogate at h
  split at h
  · simp at h
  · simp at h
  · split at h
    · simp at h
    · next hread =>
        have := length_lt_of_readHex4 hread
        split at h
        · simp only [Except.ok.injEq, Prod.mk.injEq] at h
          simp only [List.length_cons, ← h.2]
          omega
        · simp at h
  · simp at h
  · simp at h

theorem length_lt_of_readCodePoint {s rest : List Char} {c : Char}
    (h : readCodePoint s = .ok (c, rest)) : rest.length < s.length := by
  unfold readCodePoint at h
  split at h
  · simp at h
  · next hread =>
      have := length_lt_of_readHex4 hread
      split at h
      · simp at h
      · split at h
        · have := length_lt_of_readLowSurrogate h
          omega
        · simp only [Except.ok.injEq, Prod.mk.injEq] at h
          simpa [← h.2] using this

theorem length_lt_of_readEscape {s rest : List Char} {c : Char}
    (h : readEscape s = .ok (c, rest)) : rest.length < s.length := by
  unfold readEscape at h
  split at h
  · simp at h
  · have := length_lt_of_readCodePoint h
    simp only [List.length_cons]
    omega
  · split at h
    · simp only [Except.ok.injEq, Prod.mk.injEq] at h
      simp [← h.2]
    · simp at h

theorem length_lt_of_passEscape {s rest : List Char} {u : Unit}
    (h : passEscape s = .ok (u, rest)) : rest.length < s.length := by
  unfold passEscape at h
  split at h
  · simp at h
  · split at h
    · simp at h
    · next hread =>
        have := length_lt_of_readHex4 hread
        simp only [Except.ok.injEq, Prod.mk.injEq] at h
        simp only [List.length_cons, ← h.2]
        omega
  · split at h
    · simp only [Except.ok.injEq, Prod.mk.injEq] at h
      simp [← h.2]
    · simp at h

/-- The characters up to the closing quote, which is taken too. -/
def readChars (s : List Char) : Reading (List Char) :=
  match s with
  | [] => .error (.before .endInString [])
  | '"' :: rest => .ok ([], rest)
  | '\\' :: rest =>
      match h : readEscape rest with
      | .error fault => .error fault
      | .ok (c, after) =>
          have := length_lt_of_readEscape h
          match readChars after with
          | .error fault => .error fault
          | .ok (cs, rest) => .ok (c :: cs, rest)
  | c :: rest =>
      if c < ' ' then .error (.into .controlCharacter s)
      else
        match readChars rest with
        | .error fault => .error fault
        | .ok (cs, rest) => .ok (c :: cs, rest)
termination_by s.length
decreasing_by all_goals simp_wf <;> omega

/-- Passes over the characters up to the closing quote, which is taken too. -/
def passChars (s : List Char) : Reading Unit :=
  match s with
  | [] => .error (.before .endInString [])
  | '"' :: rest => .ok ((), rest)
  | '\\' :: rest =>
      match h : passEscape rest with
      | .error fault => .error fault
      | .ok (_, after) =>
          have := length_lt_of_passEscape h
          passChars after
  | c :: rest => if c < ' ' then .error (.before .controlCharacter s) else passChars rest
termination_by s.length
decreasing_by all_goals simp_wf <;> omega

theorem length_lt_of_readChars {s cs rest : List Char} (h : readChars s = .ok (cs, rest)) :
    rest.length < s.length := by
  fun_induction readChars s generalizing cs rest with
  | case1 => simp at h
  | case2 => simp_all
  | case3 => simp at h
  | case4 => simp at h
  | case5 s c after hescape hlt cs' rest' hread ih =>
      simp only [Except.ok.injEq, Prod.mk.injEq] at h
      have := ih hread
      simp only [List.length_cons, ← h.2]
      omega
  | case6 => simp at h
  | case7 => simp at h
  | case8 c s _ _ _ cs' rest' hread ih =>
      simp only [Except.ok.injEq, Prod.mk.injEq] at h
      have := ih hread
      simp only [List.length_cons, ← h.2]
      omega

theorem length_lt_of_passChars {s rest : List Char} {u : Unit} (h : passChars s = .ok (u, rest)) :
    rest.length < s.length := by
  fun_induction passChars s with
  | case1 => simp at h
  | case2 => simp_all
  | case3 => simp at h
  | case4 s c after hescape hlt ih =>
      have := ih h
      simp only [List.length_cons]
      omega
  | case5 => simp at h
  | case6 c s _ _ _ ih => exact Nat.lt_succ_of_lt (ih h)

/-- A text whose opening quote has been read. -/
def readText (s : List Char) : Reading String :=
  match readChars s with
  | .error fault => .error fault
  | .ok (cs, rest) => .ok (String.ofList cs, rest)

theorem length_lt_of_readText {s rest : List Char} {t : String} (h : readText s = .ok (t, rest)) :
    rest.length < s.length := by
  unfold readText at h
  split at h
  · simp at h
  · next hread =>
      simp only [Except.ok.injEq, Prod.mk.injEq] at h
      exact h.2 ▸ length_lt_of_readChars hread

end DesignCoupling.Json
