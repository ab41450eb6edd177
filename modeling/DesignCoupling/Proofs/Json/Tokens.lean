import DesignCoupling.Proofs.Json.Grammar

/-!
# Tokens

Readers of strings and numbers take exactly what is written of these, whatever follows. A string that
is read to be kept needs all its characters; one that is passed over does not.
-/

namespace DesignCoupling.Json

theorem ok_of_toOption {ε α : Type} {r : Except ε α} {a : α} (h : r.toOption = some a) :
    r = .ok a := by
  cases r with
  | error e => cases h
  | ok b => cases h; rfl

theorem error_of_toOption {ε α : Type} {r : Except ε α} (h : r.toOption = none) :
    ∃ e, r = .error e := by
  cases r with
  | error e => exact ⟨e, rfl⟩
  | ok a => cases h

theorem reading_cases {α : Type} {r : Reading α} {found : Option α} {rest : List Char}
    (h : r.toOption = found.map fun a => (a, rest)) :
    (∃ a, found = some a ∧ r = .ok (a, rest)) ∨ found = none ∧ ∃ fault, r = .error fault := by
  cases found with
  | none => exact .inr ⟨rfl, error_of_toOption h⟩
  | some a => exact .inl ⟨a, rfl, ok_of_toOption h⟩

theorem skipBlanks_append {blanks : List Char} (h : ∀ c ∈ blanks, isBlank c = true)
    (s : List Char) : skipBlanks (blanks ++ s) = skipBlanks s := by
  rw [skipBlanks, List.dropWhile_append_of_pos h, skipBlanks]

theorem skipBlanks_cons {c : Char} (h : isBlank c = false) (s : List Char) :
    skipBlanks (c :: s) = c :: s :=
  List.dropWhile_cons_of_neg (by simp [h])

theorem Padded.skipBlanks_eq {s t : List Char} (h : Padded s t) : skipBlanks s = skipBlanks t := by
  obtain ⟨blanks, hblanks, rfl⟩ := h
  exact skipBlanks_append hblanks t

/-- Only blanks, punctuation and the end of the text can follow a value. -/
def Ends (s : List Char) : Prop :=
  ∀ c ∈ s.head?, isBlank c = true ∨ c = ',' ∨ c = ']' ∨ c = '\x7d'

theorem ends_nil : Ends [] := by simp [Ends]

theorem Padded.ends {s t : List Char} (h : Padded s t) (ht : Ends t) : Ends s := by
  obtain ⟨blanks, hblanks, rfl⟩ := h
  cases blanks with
  | nil => exact ht
  | cons c blanks =>
      intro d hd
      obtain rfl : c = d := by simpa using hd
      exact .inl (hblanks c List.mem_cons_self)

namespace Literal

variable (l : Literal) (s : List Char)

@[simp] theorem chars_nil_append : chars [] ++ s = s := rfl

@[simp] theorem chars_plain_append (c : Char) (h : ' ' ≤ c ∧ c ≠ '"' ∧ c ≠ '\\') :
    chars (.plain c h :: l) ++ s = c :: (chars l ++ s) := rfl

@[simp] theorem chars_escape_append (letter c : Char) (h : plainEscape? letter = some c) :
    chars (.escape letter c h :: l) ++ s = '\\' :: letter :: (chars l ++ s) := rfl

@[simp] theorem chars_unit_append (a b c d : Char) (n : Nat) (h : hex4? a b c d = some n) :
    chars (.unit a b c d n h :: l) ++ s = '\\' :: 'u' :: a :: b :: c :: d :: (chars l ++ s) := rfl

end Literal

theorem readHex4_of_hex4? {a b c d : Char} {n : Nat} (h : hex4? a b c d = some n)
    (s : List Char) : readHex4 (a :: b :: c :: d :: s) = .ok (n, s) := by
  rw [readHex4, h]

theorem ne_u_of_plainEscape? {letter c : Char} (h : plainEscape? letter = some c) :
    letter ≠ 'u' := by
  rintro rfl
  cases h

theorem passEscape_letter {letter c : Char} (h : plainEscape? letter = some c) (s : List Char) :
    passEscape (letter :: s) = .ok ((), s) := by
  rw [passEscape.eq_3 _ _ (ne_u_of_plainEscape? h), h]

theorem passEscape_unit {a b c d : Char} {n : Nat} (h : hex4? a b c d = some n) (s : List Char) :
    passEscape ('u' :: a :: b :: c :: d :: s) = .ok ((), s) := by
  rw [passEscape, readHex4_of_hex4? h]

theorem passChars_escape {s after : List Char} (h : passEscape s = .ok ((), after)) :
    passChars ('\\' :: s) = passChars after := by
  rw [passChars.eq_3]
  split
  · next hpass => rw [h] at hpass; cases hpass
  · next hpass => rw [h] at hpass; cases hpass; rfl

theorem passChars_literal (l : Literal) (rest : List Char) :
    passChars (l.chars ++ '"' :: rest) = .ok ((), rest) := by
  induction l with
  | nil => exact passChars.eq_2 rest
  | cons p l ih =>
      cases p with
      | plain c h =>
          obtain ⟨hblank, hquote, hbackslash⟩ := h
          rw [Literal.chars_plain_append, passChars.eq_4 _ _ hquote hbackslash,
            if_neg (Char.not_lt.2 hblank), ih]
      | escape letter c h =>
          rw [Literal.chars_escape_append, passChars_escape (passEscape_letter h _), ih]
      | unit a b c d n h =>
          rw [Literal.chars_unit_append, passChars_escape (passEscape_unit h _), ih]

/-- A character in front of what has been read. -/
def addChar (c : Char) (r : List Char × List Char) : List Char × List Char := (c :: r.1, r.2)

theorem toOption_readChars_plain {c : Char} (h : ' ' ≤ c ∧ c ≠ '"' ∧ c ≠ '\\') (s : List Char) :
    (readChars (c :: s)).toOption = (readChars s).toOption.map (addChar c) := by
  obtain ⟨hblank, hquote, hbackslash⟩ := h
  rw [readChars.eq_4 _ _ hquote hbackslash, if_neg (Char.not_lt.2 hblank)]
  cases readChars s <;> rfl

theorem toOption_readChars_escape {s after : List Char} {c : Char}
    (h : (readEscape s).toOption = some (c, after)) :
    (readChars ('\\' :: s)).toOption = (readChars after).toOption.map (addChar c) := by
  rw [readChars.eq_3]
  split
  · next hread => rw [hread] at h; cases h
  · next hread =>
      rw [hread] at h
      cases h
      cases readChars after <;> rfl

theorem toOption_readChars_badEscape {s : List Char} (h : (readEscape s).toOption = none) :
    (readChars ('\\' :: s)).toOption = none := by
  rw [readChars.eq_3]
  split
  · rfl
  · next hread => rw [hread] at h; cases h

theorem toOption_readEscape_letter {letter c : Char} (h : plainEscape? letter = some c)
    (s : List Char) : (readEscape (letter :: s)).toOption = some (c, s) := by
  rw [readEscape.eq_3 _ _ (ne_u_of_plainEscape? h), h]
  rfl

theorem toOption_readEscape_unit {a b c d : Char} {n : Nat} (h : hex4? a b c d = some n)
    (s : List Char) :
    (readEscape ('u' :: a :: b :: c :: d :: s)).toOption =
      if isLowSurrogate n then none
      else if isHighSurrogate n then (readLowSurrogate n s).toOption
      else some (Char.ofNat n, s) := by
  rw [readEscape, readCodePoint, readHex4_of_hex4? h]
  simp only
  split
  · rfl
  · split <;> rfl

theorem toOption_readLowSurrogate_unit {a b c d : Char} {low : Nat}
    (h : hex4? a b c d = some low) (high : Nat) (s : List Char) :
    (readLowSurrogate high ('\\' :: 'u' :: a :: b :: c :: d :: s)).toOption =
      if isLowSurrogate low then some (surrogatePair high low, s) else none := by
  rw [readLowSurrogate, readHex4_of_hex4? h]
  simp only
  split <;> rfl

theorem toOption_readLowSurrogate_other {l : Literal} (high : Nat)
    (h : ∀ a b c d n hex l', l = .unit a b c d n hex :: l' → False) (rest : List Char) :
    (readLowSurrogate high (l.chars ++ '"' :: rest)).toOption = none := by
  cases l with
  | nil => rfl
  | cons p l =>
      cases p with
      | plain c hc =>
          obtain ⟨_, _, hbackslash⟩ := hc
          rw [Literal.chars_plain_append, readLowSurrogate.eq_5]
          · rfl
          all_goals simp_all
      | escape letter c hletter =>
          have hu := ne_u_of_plainEscape? hletter
          rw [Literal.chars_escape_append, readLowSurrogate.eq_4]
          · rfl
          all_goals simp_all
      | unit a b c d n hex => exact (h a b c d n hex l rfl).elim

/-- A string is read as the text that its literal stands for. -/
theorem toOption_readChars (l : Literal) (rest : List Char) :
    (readChars (l.chars ++ '"' :: rest)).toOption = l.decode?.map fun cs => (cs, rest) := by
  have hadd : ∀ (c : Char) (r : Option (List Char)),
      (r.map fun cs => (cs, rest)).map (addChar c) =
        (r.map (c :: ·)).map fun cs => (cs, rest) := by
    intro c r
    rw [Option.map_map, Option.map_map]
    rfl
  fun_induction Literal.decode? l with
  | case1 => rw [Literal.chars_nil_append, readChars.eq_2]; rfl
  | case2 c hc l ih => rw [Literal.chars_plain_append, toOption_readChars_plain hc, ih, hadd]
  | case3 letter c hletter l ih =>
      rw [Literal.chars_escape_append,
        toOption_readChars_escape (toOption_readEscape_letter hletter _), ih, hadd]
  | case4 a b c d n hex l hlow =>
      rw [Literal.chars_unit_append]
      apply toOption_readChars_badEscape
      rw [toOption_readEscape_unit hex, if_pos hlow]
  | case5 a b c d n hex hlow hhigh a' b' c' d' low hex' l hpair ih =>
      have hescape : ∀ s, (readEscape ('u' :: a :: b :: c :: d :: '\\' :: 'u' :: a' :: b' :: c' ::
          d' :: s)).toOption = some (surrogatePair n low, s) := by
        intro s
        rw [toOption_readEscape_unit hex, if_neg hlow, if_pos hhigh,
          toOption_readLowSurrogate_unit hex', if_pos hpair]
      rw [Literal.chars_unit_append, Literal.chars_unit_append,
        toOption_readChars_escape (hescape _), ih, hadd]
  | case6 a b c d n hex hlow hhigh a' b' c' d' low hex' l hpair =>
      rw [Literal.chars_unit_append, Literal.chars_unit_append]
      apply toOption_readChars_badEscape
      rw [toOption_readEscape_unit hex, if_neg hlow, if_pos hhigh,
        toOption_readLowSurrogate_unit hex', if_neg hpair]
  | case7 a b c d n hex l hlow hhigh hother =>
      rw [Literal.chars_unit_append]
      apply toOption_readChars_badEscape
      rw [toOption_readEscape_unit hex, if_neg hlow, if_pos hhigh,
        toOption_readLowSurrogate_other n hother]
  | case8 a b c d n hex l hlow hhigh ih =>
      have hescape : ∀ s, (readEscape ('u' :: a :: b :: c :: d :: s)).toOption =
          some (Char.ofNat n, s) := by
        intro s
        rw [toOption_readEscape_unit hex, if_neg hlow, if_neg hhigh]
      rw [Literal.chars_unit_append, toOption_readChars_escape (hescape _), ih, hadd]

theorem toOption_readText (l : Literal) (rest : List Char) :
    (readText (l.chars ++ '"' :: rest)).toOption = l.text?.map fun t => (t, rest) := by
  rw [readText, Literal.text?]
  rcases reading_cases (toOption_readChars l rest) with
    ⟨cs, hdecode, hread⟩ | ⟨hdecode, fault, hread⟩
  · rw [hread, hdecode]
    rfl
  · rw [hread, hdecode]
    rfl

/-- No digit stands in front. -/
def NoDigit (s : List Char) : Prop := ∀ c ∈ s.head?, c.isDigit = false

theorem splitDigits_append {digits s : List Char} (hdigits : AllDigits digits) (hs : NoDigit s) :
    Numeral.splitDigits (digits ++ s) = (digits, s) := by
  rw [Numeral.splitDigits, List.takeWhile_append_of_pos hdigits,
    List.dropWhile_append_of_pos hdigits]
  cases s with
  | nil => simp
  | cons c s =>
      have hc : c.isDigit = false := hs c rfl
      simp [hc]

theorem Ends.head_eq {c : Char} {s : List Char} (h : Ends (c :: s)) :
    c = ' ' ∨ c = '\t' ∨ c = '\n' ∨ c = '\r' ∨ c = ',' ∨ c = ']' ∨ c = '\x7d' := by
  simpa only [isBlank, Bool.or_eq_true, beq_iff_eq, or_assoc] using h c rfl

theorem Ends.head_ne {c : Char} {s : List Char} (h : Ends (c :: s)) :
    c ≠ '.' ∧ c ≠ 'e' ∧ c ≠ 'E' := by
  rcases h.head_eq with rfl | rfl | rfl | rfl | rfl | rfl | rfl <;> decide

theorem Ends.noDigit {s : List Char} (h : Ends s) : NoDigit s := by
  cases s with
  | nil => simp [NoDigit]
  | cons c s =>
      intro d hd
      obtain rfl : c = d := by simpa using hd
      rcases h.head_eq with rfl | rfl | rfl | rfl | rfl | rfl | rfl <;> decide

theorem readExponentDigits_append (atEnd : Cause) {digits s : List Char}
    (hdigits : AllDigits digits) (hne : digits ≠ []) (hs : NoDigit s) :
    Numeral.readExponentDigits atEnd (digits ++ s) = .ok (digits, s) := by
  have hsplit := splitDigits_append hdigits hs
  cases digits with
  | nil => exact (hne rfl).elim
  | cons c digits =>
      rw [List.cons_append, Numeral.readExponentDigits.eq_2, ← List.cons_append, hsplit,
        if_neg hne]

theorem ExponentForm.splitSign_append (e : ExponentForm) (s : List Char) :
    Numeral.splitSign (e.sign ++ (e.digits ++ s)) = (decide (e.sign = ['-']), e.digits ++ s) := by
  rcases e.isSign with hsign | hsign | hsign <;> rw [hsign]
  · -- without a sign there is a digit, which is taken for none
    cases hdigits : e.digits with
    | nil => exact (e.digits_ne_nil hdigits).elim
    | cons c digits =>
        have hc : c.isDigit = true := e.allDigits c (by simp [hdigits])
        have hminus : c ≠ '-' := by rintro rfl; simp at hc
        have hplus : c ≠ '+' := by rintro rfl; simp at hc
        simp [Numeral.splitSign, hminus, hplus]
  · simp [Numeral.splitSign]
  · simp [Numeral.splitSign]

namespace NumberForm

def fractionChars (n : NumberForm) : List Char := if n.fraction = [] then [] else '.' :: n.fraction

def exponentChars (n : NumberForm) : List Char := (n.exponent.map ExponentForm.chars).getD []

/-- The numeral that is written, with its sign. -/
def numeral (negative : Bool) (n : NumberForm) : Numeral where
  negative := negative
  whole := n.whole
  fraction := n.fraction
  exponent := n.exponent.map fun e => (decide (e.sign = ['-']), e.digits)

variable (n : NumberForm) {rest : List Char}

theorem chars_append (rest : List Char) :
    n.chars ++ rest = n.whole ++ (n.fractionChars ++ (n.exponentChars ++ rest)) := by
  rw [chars, List.append_assoc, List.append_assoc]
  rfl

theorem exponentChars_noDigit (h : Ends rest) : NoDigit (n.exponentChars ++ rest) := by
  cases hexponent : n.exponent with
  | none => simpa [exponentChars, hexponent] using h.noDigit
  | some e =>
      intro c hc
      obtain rfl : e.letter = c := by
        simpa [exponentChars, hexponent, ExponentForm.chars] using hc
      rcases e.isLetter with hletter | hletter <;> rw [hletter] <;> decide

theorem fractionChars_noDigit (h : Ends rest) :
    NoDigit (n.fractionChars ++ (n.exponentChars ++ rest)) := by
  by_cases hfraction : n.fraction = []
  · rw [fractionChars, if_pos hfraction]
    exact n.exponentChars_noDigit h
  · intro c hc
    obtain rfl : '.' = c := by simpa [fractionChars, if_neg hfraction] using hc
    decide

theorem readWholePart_append (atEnd : Cause) {s : List Char} (hs : NoDigit s) :
    Numeral.readWholePart atEnd (n.whole ++ s) = .ok (n.whole, s) := by
  rcases n.isWhole with hzero | ⟨c, digits, hwhole, hne, hdigits⟩
  · rw [hzero]
    cases s with
    | nil => rfl
    | cons c s =>
        have hc : c.isDigit = false := hs c rfl
        simp [Numeral.readWholePart, hc]
  · have hc : c.isDigit = true := hdigits c List.mem_cons_self
    have hsplit := splitDigits_append (fun d hd => hdigits d (List.mem_cons_of_mem _ hd)) hs
    rw [hwhole, List.cons_append, Numeral.readWholePart.eq_4 _ _ _ hne, if_pos hc, hsplit]

theorem exponentChars_noPoint (h : Ends rest) (s : List Char) :
    n.exponentChars ++ rest ≠ '.' :: s := by
  intro heq
  cases hexponent : n.exponent with
  | none =>
      have hrest : rest = '.' :: s := by simpa [exponentChars, hexponent] using heq
      exact (Ends.head_ne (hrest ▸ h)).1 rfl
  | some e =>
      have hcons : e.letter = '.' ∧ e.sign ++ (e.digits ++ rest) = s := by
        simpa [exponentChars, hexponent, ExponentForm.chars] using heq
      have hpoint := hcons.1
      rcases e.isLetter with hletter | hletter <;> simp [hletter] at hpoint

theorem readFraction_append (atEnd : Cause) (h : Ends rest) :
    Numeral.readFraction atEnd (n.fractionChars ++ (n.exponentChars ++ rest)) =
      .ok (n.fraction, n.exponentChars ++ rest) := by
  have hsplit := splitDigits_append n.isFraction (n.exponentChars_noDigit h)
  unfold fractionChars
  split
  · next hnone =>
      rw [List.nil_append, Numeral.readFraction.eq_3 _ _ (n.exponentChars_noPoint h [])
        (n.exponentChars_noPoint h), hnone]
  · next hsome =>
      rw [List.cons_append, Numeral.readFraction.eq_2 _ _ (by simp [hsome]), hsplit, if_neg hsome]

theorem readExponent_append (atEnd : Cause) (h : Ends rest) :
    Numeral.readExponent atEnd (n.exponentChars ++ rest) =
      .ok ((n.numeral false).exponent, rest) := by
  cases hexponent : n.exponent with
  | none =>
      cases rest with
      | nil => simp [exponentChars, numeral, hexponent, Numeral.readExponent]
      | cons c rest =>
          obtain ⟨-, he, hE⟩ := h.head_ne
          simp [exponentChars, numeral, hexponent, Numeral.readExponent, he, hE]
  | some e =>
      have hchars : n.exponentChars ++ rest = e.letter :: (e.sign ++ (e.digits ++ rest)) := by
        simp [exponentChars, hexponent, ExponentForm.chars]
      rw [hchars, Numeral.readExponent.eq_2, if_pos e.isLetter, e.splitSign_append,
        readExponentDigits_append atEnd e.allDigits e.digits_ne_nil h.noDigit]
      simp [numeral, hexponent]

/-- A number is read as it is written. -/
theorem readUnsigned_append (atEnd : Cause) (negative : Bool) (h : Ends rest) :
    Numeral.readUnsigned atEnd negative (n.chars ++ rest) = .ok (n.numeral negative, rest) := by
  rw [n.chars_append, Numeral.readUnsigned, n.readWholePart_append atEnd (n.fractionChars_noDigit h)]
  simp only [n.readFraction_append atEnd h, n.readExponent_append atEnd h]
  rfl

end NumberForm

end DesignCoupling.Json
