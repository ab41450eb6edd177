import DesignCoupling.Proofs.Json.Tokens

/-!
# What is written

Both texts of a tree, the compact one and the one in lines, are texts of the same value. Its strings
stand for the texts of the tree, character by character, whatever the characters are.
-/

namespace DesignCoupling.Json

/-- The letter that is written for a character behind a backslash. -/
def shortEscape? (c : Char) : Option Char :=
  match c with
  | '"' => some '"'
  | '\\' => some '\\'
  | '\x08' => some 'b'
  | '\x0c' => some 'f'
  | '\n' => some 'n'
  | '\r' => some 'r'
  | '\t' => some 't'
  | _ => none

theorem plainEscape?_of_shortEscape? {c letter : Char} (h : shortEscape? c = some letter) :
    plainEscape? letter = some c := by
  unfold shortEscape? at h
  split at h <;> cases h <;> rfl

theorem ne_of_shortEscape?_eq_none {c : Char} (h : shortEscape? c = none) :
    c ≠ '"' ∧ c ≠ '\\' := by
  constructor <;> rintro rfl <;> cases h

theorem hex4?_hexDigit {c : Char} (h : c < ' ') :
    hex4? '0' '0' (hexDigit (c.toNat / 16)) (hexDigit (c.toNat % 16)) = some c.toNat := by
  have hall : ∀ n < 32, hex4? '0' '0' (hexDigit (n / 16)) (hexDigit (n % 16)) = some n := by
    decide
  exact hall c.toNat h

/-- The piece that a character is written as. -/
def Piece.ofChar (c : Char) : Piece :=
  match h : shortEscape? c with
  | some letter => .escape letter c (plainEscape?_of_shortEscape? h)
  | none =>
      if hcontrol : c < ' ' then .unit '0' '0' _ _ c.toNat (hex4?_hexDigit hcontrol)
      else .plain c ⟨Char.not_lt.1 hcontrol, ne_of_shortEscape?_eq_none h⟩

theorem encodeChar_eq (c : Char) :
    encodeChar c =
      match shortEscape? c with
      | some letter => ['\\', letter]
      | none =>
          if c < ' ' then ['\\', 'u', '0', '0', hexDigit (c.toNat / 16), hexDigit (c.toNat % 16)]
          else [c] := by
  unfold encodeChar shortEscape?
  split <;> simp_all

theorem Piece.chars_ofChar (c : Char) : (Piece.ofChar c).chars = encodeChar c := by
  rw [encodeChar_eq]
  unfold ofChar
  split
  · next h => simp only [h]; rfl
  · next h =>
      simp only [h]
      split <;> rfl

namespace Literal

def ofString (s : String) : Literal := s.toList.map Piece.ofChar

theorem decode?_ofChar_cons (c : Char) (l : Literal) :
    decode? (Piece.ofChar c :: l) = (decode? l).map (c :: ·) := by
  unfold Piece.ofChar
  split
  · rfl
  · split
    · next hcontrol =>
        have hlt : c.toNat < 32 := hcontrol
        have hlow : isLowSurrogate c.toNat = false := by simp [isLowSurrogate]; omega
        have hhigh : isHighSurrogate c.toNat = false := by simp [isHighSurrogate]; omega
        rw [decode?.eq_def]
        simp [hlow, hhigh, Char.ofNat_toNat]
    · rfl

theorem decode?_map_ofChar (cs : List Char) : decode? (cs.map Piece.ofChar) = some cs := by
  induction cs with
  | nil => rfl
  | cons c cs ih => rw [List.map_cons, decode?_ofChar_cons, ih]; rfl

/-- What is written for a text stands for it. -/
@[simp] theorem text?_ofString (s : String) : (ofString s).text? = some s := by
  rw [text?, ofString, decode?_map_ofChar, Option.map_some, String.ofList_toList]

theorem chars_ofString (s : String) : (ofString s).chars = s.toList.flatMap encodeChar := by
  rw [ofString, chars, List.flatMap_map]
  simp only [Piece.chars_ofChar]

end Literal

theorem encode_append (s : String) (rest : List Char) :
    encode s ++ rest = '"' :: ((Literal.ofString s).chars ++ '"' :: rest) := by
  rw [encode, Literal.chars_ofString, List.append_assoc]
  rfl

theorem toDigits_eq_cons {n : Nat} (hn : 0 < n) :
    ∃ c s, Nat.toDigits 10 n = c :: s ∧ c ≠ '0' := by
  induction n using Nat.strongRecOn with
  | ind n ih =>
      by_cases hlt : n < 10
      · have hall : ∀ n < 10, 0 < n → n.digitChar ≠ '0' := by decide
        rw [Nat.toDigits_of_lt_base hlt]
        exact ⟨_, [], rfl, hall n hlt hn⟩
      · obtain ⟨c, s, hdigits, hc⟩ := ih (n / 10) (by omega) (by omega)
        rw [Nat.toDigits_of_base_le (by omega) (by omega), hdigits]
        exact ⟨c, _, rfl, hc⟩

theorem toDigits_isWhole (n : Nat) : Nat.toDigits 10 n = ['0'] ∨
    ∃ c s, Nat.toDigits 10 n = c :: s ∧ c ≠ '0' ∧ AllDigits (c :: s) := by
  have hall : AllDigits (Nat.toDigits 10 n) := fun c hc =>
    Nat.isDigit_of_mem_toDigits (by omega) (by omega) hc
  rcases Nat.eq_zero_or_pos n with rfl | hn
  · exact .inl rfl
  · obtain ⟨c, s, hdigits, hc⟩ := toDigits_eq_cons hn
    exact .inr ⟨c, s, hdigits, hc, hdigits ▸ hall⟩

def NumberForm.ofNat (n : Nat) : NumberForm where
  whole := Nat.toDigits 10 n
  fraction := []
  exponent := none
  isWhole := toDigits_isWhole n
  isFraction := by simp [AllDigits]

@[simp] theorem NumberForm.chars_ofNat (n : Nat) :
    (NumberForm.ofNat n).chars = Nat.toDigits 10 n := by
  simp [NumberForm.chars, NumberForm.ofNat]

namespace Tree

mutual

/-- The value that is written for a tree. -/
def spelling : Tree → Spelling
  | text s => .text (.ofString s)
  | count n => .number false (.ofNat n)
  | list items => .list (itemSpellings items)
  | object members => .object (memberSpellings members)

def itemSpellings : List Tree → List Spelling
  | [] => []
  | item :: items => item.spelling :: itemSpellings items

def memberSpellings : List (String × Tree) → List Member
  | [] => []
  | (key, value) :: members => (.ofString key, value.spelling) :: memberSpellings members

end

theorem itemSpellings_eq_map (items : List Tree) : itemSpellings items = items.map spelling := by
  induction items with
  | nil => rfl
  | cons item items ih => rw [itemSpellings, ih]; rfl

mutual

theorem begins_compact (t : Tree) (rest : List Char) :
    t.spelling.Begins (t.compact ++ rest) rest := by
  cases t with
  | text s => rw [spelling, Spelling.Begins, compact, encode_append]
  | count n => rw [spelling, Spelling.Begins, compact, NumberForm.chars_ofNat]
  | list items =>
      rw [spelling, Spelling.Begins, compact]
      simp only [List.cons_append, List.append_assoc]
      exact ⟨_, rfl, itemsBegin_compact items true rest⟩
  | object members =>
      rw [spelling, Spelling.Begins, compact]
      simp only [List.cons_append, List.append_assoc]
      exact ⟨_, rfl, membersBegin_compact members true rest⟩

theorem itemsBegin_compact (items : List Tree) (isFirst : Bool) (rest : List Char) :
    Spelling.ItemsBegin isFirst (itemSpellings items)
      (compactItems isFirst items ++ ']' :: rest) rest := by
  cases items with
  | nil => rw [itemSpellings, Spelling.ItemsBegin]; exact Padded.refl _
  | cons item items =>
      rw [itemSpellings, Spelling.ItemsBegin, compactItems, List.append_assoc, List.append_assoc]
      exact ⟨_, _, Lead.of_comma _ (Padded.refl _), begins_compact item _,
        itemsBegin_compact items false rest⟩

theorem membersBegin_compact (members : List (String × Tree)) (isFirst : Bool)
    (rest : List Char) :
    Spelling.MembersBegin isFirst (memberSpellings members)
      (compactMembers isFirst members ++ '\x7d' :: rest) rest := by
  cases members with
  | nil => rw [memberSpellings, Spelling.MembersBegin]; exact Padded.refl _
  | cons m members =>
      obtain ⟨key, value⟩ := m
      rw [memberSpellings, Spelling.MembersBegin, compactMembers]
      simp only [List.append_assoc, List.cons_append, encode_append]
      exact ⟨_, _, _, _, Lead.of_comma _ (Padded.refl _), Padded.refl _, Padded.refl _,
        begins_compact value _, membersBegin_compact members false rest⟩

end

theorem newLine_padded (depth : Nat) (s : List Char) : Padded (newLine depth ++ s) s := by
  refine ⟨newLine depth, ?_, rfl⟩
  intro c hc
  simp only [newLine, List.mem_cons, List.mem_replicate] at hc
  rcases hc with rfl | ⟨-, rfl⟩ <;> rfl

mutual

theorem begins_lines (t : Tree) (depth : Nat) (rest : List Char) :
    t.spelling.Begins (t.lines depth ++ rest) rest := by
  match t with
  | text s => rw [spelling, Spelling.Begins, lines, encode_append]
  | count n => rw [spelling, Spelling.Begins, lines, NumberForm.chars_ofNat]
  | list [] =>
      rw [spelling, Spelling.Begins, lines, itemSpellings]
      exact ⟨_, rfl, by rw [Spelling.ItemsBegin]; exact Padded.refl _⟩
  | list (item :: items) =>
      rw [spelling, Spelling.Begins, lines]
      simp only [List.cons_append, List.append_assoc]
      exact ⟨_, rfl, itemsBegin_lines (item :: items) (depth + 1) true (newLine_padded depth _)⟩
  | object [] =>
      rw [spelling, Spelling.Begins, lines, memberSpellings]
      exact ⟨_, rfl, by rw [Spelling.MembersBegin]; exact Padded.refl _⟩
  | object (m :: members) =>
      rw [spelling, Spelling.Begins, lines]
      simp only [List.cons_append, List.append_assoc]
      exact ⟨_, rfl, membersBegin_lines (m :: members) (depth + 1) true (newLine_padded depth _)⟩

theorem itemsBegin_lines (items : List Tree) (depth : Nat) (isFirst : Bool) {s rest : List Char}
    (h : Padded s (']' :: rest)) :
    Spelling.ItemsBegin isFirst (itemSpellings items)
      (lineItems depth isFirst items ++ s) rest := by
  match items with
  | [] => rw [itemSpellings, Spelling.ItemsBegin]; exact h
  | item :: items =>
      rw [itemSpellings, Spelling.ItemsBegin, lineItems]
      simp only [List.append_assoc]
      exact ⟨_, _, Lead.of_comma _ (newLine_padded depth _), begins_lines item depth _,
        itemsBegin_lines items depth false h⟩

theorem membersBegin_lines (members : List (String × Tree)) (depth : Nat) (isFirst : Bool)
    {s rest : List Char} (h : Padded s ('\x7d' :: rest)) :
    Spelling.MembersBegin isFirst (memberSpellings members)
      (lineMembers depth isFirst members ++ s) rest := by
  match members with
  | [] => rw [memberSpellings, Spelling.MembersBegin]; exact h
  | (key, value) :: members =>
      rw [memberSpellings, Spelling.MembersBegin, lineMembers]
      simp only [List.append_assoc, List.cons_append, encode_append]
      exact ⟨_, _, _, _, Lead.of_comma _ (newLine_padded depth _), Padded.refl _,
        ⟨[' '], by simp [isBlank], rfl⟩, begins_lines value depth _,
        membersBegin_lines members depth false h⟩

end

/-- The compact text of a tree is a text of its value. -/
theorem isText_toText (t : Tree) : t.spelling.IsText t.toText.toList := by
  have hbegins := t.begins_compact []
  rw [List.append_nil] at hbegins
  rw [toText, String.toList_ofList]
  exact ⟨_, _, Padded.refl _, hbegins, Padded.refl _⟩

theorem isText_toLines (t : Tree) : t.spelling.IsText t.toLines.toList := by
  have hbegins := t.begins_lines 0 []
  rw [List.append_nil] at hbegins
  rw [toLines, String.toList_ofList]
  exact ⟨_, _, Padded.refl _, hbegins, Padded.refl _⟩

end Tree

end DesignCoupling.Json
