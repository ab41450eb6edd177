import DesignCoupling.Json.Skip
import DesignCoupling.Json.Tree

/-!
# The grammar of JSON

A spelling is a JSON value as it is written: with its escapes, with the members of objects in their
order, but without the blanks between tokens. A text begins with a spelling if it is what is left of
the spelling, blanks put between the tokens at will, and of the text that follows it.
-/

namespace DesignCoupling.Json

/-- A piece of a string: a character that stands for itself, a letter behind a backslash for another
character, or four hexadecimal digits for a code unit. -/
inductive Piece where
  | plain (c : Char) (h : ' ' ≤ c ∧ c ≠ '"' ∧ c ≠ '\\')
  | escape (letter c : Char) (h : plainEscape? letter = some c)
  | unit (a b c d : Char) (n : Nat) (h : hex4? a b c d = some n)

def Piece.chars : Piece → List Char
  | plain c _ => [c]
  | escape letter _ _ => ['\\', letter]
  | unit a b c d _ _ => ['\\', 'u', a, b, c, d]

/-- What stands between the quotes of a string. -/
abbrev Literal := List Piece

namespace Literal

def chars (l : Literal) : List Char := l.flatMap Piece.chars

/-- The characters that a literal stands for. Surrogates count in pairs; there are no characters for
one that is alone. -/
def decode? : Literal → Option (List Char)
  | [] => some []
  | .plain c _ :: l => (decode? l).map (c :: ·)
  | .escape _ c _ :: l => (decode? l).map (c :: ·)
  | .unit _ _ _ _ n _ :: l =>
      if isLowSurrogate n then none
      else if isHighSurrogate n then
        match l with
        | .unit _ _ _ _ low _ :: l =>
            if isLowSurrogate low then (decode? l).map (surrogatePair n low :: ·) else none
        | _ => none
      else (decode? l).map (Char.ofNat n :: ·)

def text? (l : Literal) : Option String := l.decode?.map String.ofList

end Literal

def AllDigits (s : List Char) : Prop := ∀ c ∈ s, c.isDigit = true

/-- An exponent: its letter, its sign, and its digits. -/
structure ExponentForm where
  letter : Char
  sign : List Char
  digits : List Char
  isLetter : letter = 'e' ∨ letter = 'E'
  isSign : sign = [] ∨ sign = ['+'] ∨ sign = ['-']
  digits_ne_nil : digits ≠ []
  allDigits : AllDigits digits

/-- A number without its sign: a whole part without leading zeros, a fraction, which is absent if it
has no digits, and perhaps an exponent. -/
structure NumberForm where
  whole : List Char
  fraction : List Char
  exponent : Option ExponentForm
  isWhole : whole = ['0'] ∨ ∃ c s, whole = c :: s ∧ c ≠ '0' ∧ AllDigits (c :: s)
  isFraction : AllDigits fraction

def ExponentForm.chars (e : ExponentForm) : List Char := e.letter :: (e.sign ++ e.digits)

def NumberForm.chars (n : NumberForm) : List Char :=
  n.whole ++ (if n.fraction = [] then [] else '.' :: n.fraction) ++
    (n.exponent.map ExponentForm.chars).getD []

/-- A value as it is written, blanks between tokens apart. -/
inductive Spelling where
  | null
  | boolean (value : Bool)
  | number (negative : Bool) (form : NumberForm)
  | text (literal : Literal)
  | list (items : List Spelling)
  | object (members : List (Literal × Spelling))

/-- A member of an object as it is written. -/
abbrev Member := Literal × Spelling

/-- Case analysis with an induction hypothesis for every item of a list and every member of an
object. -/
@[elab_as_elim, induction_eliminator]
theorem Spelling.induction {motive : Spelling → Prop} (null : motive .null)
    (boolean : ∀ value, motive (.boolean value))
    (number : ∀ negative form, motive (.number negative form))
    (text : ∀ literal, motive (.text literal))
    (list : ∀ items, (∀ item ∈ items, motive item) → motive (.list items))
    (object : ∀ members, (∀ m ∈ members, motive m.2) → motive (.object members)) :
    ∀ v, motive v
  | .null => null
  | .boolean value => boolean value
  | .number negative form => number negative form
  | .text literal => text literal
  | .list items => list items fun item _ =>
      induction null boolean number text list object item
  | .object members => object members fun m hm =>
      have : sizeOf m.2 < 1 + sizeOf members := by
        have hmember := List.sizeOf_lt_of_mem hm
        cases m
        simp only [Prod.mk.sizeOf_spec] at hmember
        simp only
        omega
      induction null boolean number text list object m.2

/-- `s` is `t` behind blanks. -/
def Padded (s t : List Char) : Prop := ∃ blanks, (∀ c ∈ blanks, isBlank c = true) ∧ s = blanks ++ t

/-- What leads from the last item to the next: blanks, and a comma unless there is no last item. -/
def Lead (isFirst : Bool) (s t : List Char) : Prop :=
  if isFirst then Padded s t else ∃ u, Padded s (',' :: u) ∧ Padded u t

namespace Spelling

mutual

/-- The text `s` begins with a value, which `rest` follows. -/
def Begins : Spelling → List Char → List Char → Prop
  | null, s, rest => s = 'n' :: 'u' :: 'l' :: 'l' :: rest
  | boolean true, s, rest => s = 't' :: 'r' :: 'u' :: 'e' :: rest
  | boolean false, s, rest => s = 'f' :: 'a' :: 'l' :: 's' :: 'e' :: rest
  | number true form, s, rest => s = '-' :: (form.chars ++ rest)
  | number false form, s, rest => s = form.chars ++ rest
  | text literal, s, rest => s = '"' :: (literal.chars ++ '"' :: rest)
  | list items, s, rest => ∃ t, s = '[' :: t ∧ ItemsBegin true items t rest
  | object members, s, rest => ∃ t, s = '\x7b' :: t ∧ MembersBegin true members t rest

/-- The text `s` begins with the items of a list, up to its closing bracket. -/
def ItemsBegin (isFirst : Bool) : List Spelling → List Char → List Char → Prop
  | [], s, rest => Padded s (']' :: rest)
  | item :: items, s, rest =>
      ∃ t u, Lead isFirst s t ∧ item.Begins t u ∧ ItemsBegin false items u rest

/-- The text `s` begins with the members of an object, up to its closing bracket. -/
def MembersBegin (isFirst : Bool) : List Member → List Char → List Char → Prop
  | [], s, rest => Padded s ('\x7d' :: rest)
  | (key, value) :: members, s, rest =>
      ∃ t u v w, Lead isFirst s ('"' :: (key.chars ++ '"' :: t)) ∧ Padded t (':' :: u) ∧
        Padded u v ∧ value.Begins v w ∧ MembersBegin false members w rest

end

/-- The text is this value, with blanks around it. -/
def IsText (v : Spelling) (s : List Char) : Prop :=
  ∃ t u, Padded s t ∧ v.Begins t u ∧ Padded u []

mutual

/-- The text of a value without any blanks. -/
def chars : Spelling → List Char
  | null => ['n', 'u', 'l', 'l']
  | boolean true => ['t', 'r', 'u', 'e']
  | boolean false => ['f', 'a', 'l', 's', 'e']
  | number true form => '-' :: form.chars
  | number false form => form.chars
  | text literal => '"' :: (literal.chars ++ ['"'])
  | list items => '[' :: (itemChars true items ++ [']'])
  | object members => '\x7b' :: (memberChars true members ++ ['\x7d'])

def itemChars (isFirst : Bool) : List Spelling → List Char
  | [] => []
  | item :: items => Tree.comma isFirst ++ (item.chars ++ itemChars false items)

def memberChars (isFirst : Bool) : List Member → List Char
  | [] => []
  | (key, value) :: members =>
      Tree.comma isFirst ++
        ('"' :: (key.chars ++ '"' :: ':' :: (value.chars ++ memberChars false members)))

end

end Spelling

theorem Padded.refl (s : List Char) : Padded s s := ⟨[], by simp, rfl⟩

theorem Lead.of_comma (isFirst : Bool) {s t : List Char} (h : Padded s t) :
    Lead isFirst (Tree.comma isFirst ++ s) t := by
  cases isFirst with
  | true => exact h
  | false => exact ⟨s, Padded.refl _, h⟩

namespace Spelling

theorem itemsBegin_chars {items : List Spelling}
    (hitems : ∀ item ∈ items, ∀ rest, item.Begins (item.chars ++ rest) rest) (isFirst : Bool)
    (rest : List Char) : ItemsBegin isFirst items (itemChars isFirst items ++ ']' :: rest) rest := by
  induction items generalizing isFirst with
  | nil => rw [ItemsBegin]; exact Padded.refl _
  | cons item items ih =>
      have hrest := ih (fun i hi => hitems i (List.mem_cons_of_mem _ hi)) false
      rw [ItemsBegin, itemChars, List.append_assoc, List.append_assoc]
      exact ⟨_, _, Lead.of_comma _ (Padded.refl _), hitems item List.mem_cons_self _, hrest⟩

theorem membersBegin_chars {members : List Member}
    (hmembers : ∀ m ∈ members, ∀ rest, m.2.Begins (m.2.chars ++ rest) rest) (isFirst : Bool)
    (rest : List Char) :
    MembersBegin isFirst members (memberChars isFirst members ++ '\x7d' :: rest) rest := by
  induction members generalizing isFirst with
  | nil => rw [MembersBegin]; exact Padded.refl _
  | cons m members ih =>
      obtain ⟨key, value⟩ := m
      have hrest := ih (fun m hm => hmembers m (List.mem_cons_of_mem _ hm)) false
      rw [MembersBegin, memberChars]
      simp only [List.append_assoc, List.cons_append]
      exact ⟨_, _, _, _, Lead.of_comma _ (Padded.refl _), Padded.refl _, Padded.refl _,
        hmembers (key, value) List.mem_cons_self _, hrest⟩

theorem begins_chars (v : Spelling) (rest : List Char) : v.Begins (v.chars ++ rest) rest := by
  induction v generalizing rest with
  | null => rw [Begins]; rfl
  | boolean value => cases value <;> rw [Begins] <;> rfl
  | number negative form => cases negative <;> rw [Begins] <;> rfl
  | text literal => rw [Begins, chars, List.cons_append, List.append_assoc]; rfl
  | list items ih =>
      rw [Begins, chars, List.cons_append, List.append_assoc]
      exact ⟨_, rfl, itemsBegin_chars ih true rest⟩
  | object members ih =>
      rw [Begins, chars, List.cons_append, List.append_assoc]
      exact ⟨_, rfl, membersBegin_chars ih true rest⟩

theorem isText_chars (v : Spelling) : v.IsText v.chars := by
  have hbegins := v.begins_chars []
  rw [List.append_nil] at hbegins
  exact ⟨_, _, Padded.refl _, hbegins, Padded.refl _⟩

end Spelling

end DesignCoupling.Json
