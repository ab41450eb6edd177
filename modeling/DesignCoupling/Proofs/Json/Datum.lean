import DesignCoupling.Proofs.Json.Decoding
import DesignCoupling.Proofs.Json.Writing

/-!
# Data of any form

A reader of all JSON texts up to some depth of nesting, put together from the readers of tokens. It
says what a text holds when nobody expects a certain form, and gets back what was written.
-/

namespace DesignCoupling.Json

/-- The number that a numeral is, if it is a whole one that is not negative. -/
def Numeral.nat? (n : Numeral) : Option Nat :=
  if n.negative = false ∧ n.fraction = [] ∧ n.exponent = none then
    some (Nat.ofDigitChars 10 n.whole 0)
  else none

inductive Datum where
  | null
  | boolean (value : Bool)
  | count (value : Nat)
  | number (value : Numeral)
  | text (value : String)
  | list (items : List Datum)
  | object (members : List (String × Datum))

/-- Whole numbers are counts, all others are left as they are written. -/
def Datum.ofNumeral (n : Numeral) : Datum :=
  match n.nat? with
  | some k => .count k
  | none => .number n

/-- What has been read, as something else. -/
def found {α β : Type} (f : α → β) (r : Reading α) : Reading β :=
  match r with
  | .error fault => .error fault
  | .ok (a, rest) => .ok (f a, rest)

theorem toOption_found {α β : Type} (f : α → β) (r : Reading α) :
    (found f r).toOption = r.toOption.map fun q => (f q.1, q.2) := by
  cases r <;> rfl

theorem eq_ok_of_found {α β : Type} {f : α → β} {r : Reading α} {b : β} {rest : List Char}
    (h : found f r = .ok (b, rest)) : ∃ a, r = .ok (a, rest) := by
  unfold found at h
  split at h
  · cases h
  · next a _ =>
      cases h
      exact ⟨a, rfl⟩

theorem length_lt_of_found {α β : Type} {f : α → β} {r : Reading α} {b : β} {c : Char}
    {s t rest : List Char} (hskip : skipBlanks s = c :: t) (h : found f r = .ok (b, rest))
    (hle : ∀ a, r = .ok (a, rest) → rest.length ≤ t.length) : rest.length < s.length := by
  obtain ⟨a, hread⟩ := eq_ok_of_found h
  have hblanks := length_skipBlanks_le s
  rw [hskip, List.length_cons] at hblanks
  exact Nat.lt_of_le_of_lt (hle a hread) hblanks

section Entries

variable {α : Type} (value : Reader α)

/-- A member of an object after the opening quote of its key. -/
def readEntry (s : List Char) : Reading (String × α) :=
  match readText s with
  | .error fault => .error fault
  | .ok (key, s) =>
      match readColon s with
      | .error fault => .error fault
      | .ok (_, s) => found (fun a => (key, a)) (value.read s)

variable {value}

theorem length_lt_of_readEntry {s rest : List Char} {m : String × α}
    (h : readEntry value s = .ok (m, rest)) : rest.length < s.length := by
  unfold readEntry at h
  split at h
  · cases h
  · next hkey =>
      split at h
      · cases h
      · next hcolon =>
          obtain ⟨a, hvalue⟩ := eq_ok_of_found h
          have := length_lt_of_readText hkey
          have := length_lt_of_readColon hcolon
          have := value.shorter hvalue
          omega

variable (value)

/-- The members of an object whose bracket has been read. -/
def readEntries (isFirst : Bool) (s : List Char) : Reading (List (String × α)) :=
  match h : nextKey isFirst s with
  | .error fault => .error fault
  | .ok (.closed rest) => .ok ([], rest)
  | .ok (.item t) =>
      match h' : readEntry value t with
      | .error fault => .error fault
      | .ok (m, rest) =>
          have : rest.length < s.length :=
            Nat.lt_trans (length_lt_of_readEntry h') ((nextKey_length h).1 t rfl)
          found (fun ms => m :: ms) (readEntries false rest)
termination_by s.length

variable {value}

theorem length_lt_of_readEntries {isFirst : Bool} {s rest : List Char} {ms : List (String × α)}
    (h : readEntries value isFirst s = .ok (ms, rest)) : rest.length < s.length := by
  fun_induction readEntries value isFirst s generalizing ms rest with
  | case1 => cases h
  | case2 s _ t hnext =>
      cases h
      exact (nextKey_length hnext).2 t rfl
  | case3 => cases h
  | case4 _ _ _ _ _ _ _ hlt ih =>
      obtain ⟨ms', hrest⟩ := eq_ok_of_found h
      exact Nat.lt_trans (ih hrest) hlt

end Entries

namespace Reader

/-- A reader that takes nothing. -/
def fail {α : Type} : Reader α where
  read s := .error (.before .expectedValue s)
  shorter := by intro s a rest h; cases h

/-- Data whose parts are read in this way. -/
def datumOf (part : Reader Datum) : Reader Datum where
  read s :=
    match skipBlanks s with
    | [] => .error (.before .endInValue [])
    | 'n' :: rest => found (fun _ => .null) (readWord ['u', 'l', 'l'] rest)
    | 't' :: rest => found (fun _ => .boolean true) (readWord ['r', 'u', 'e'] rest)
    | 'f' :: rest => found (fun _ => .boolean false) (readWord ['a', 'l', 's', 'e'] rest)
    | '"' :: rest => found .text (readText rest)
    | '[' :: rest => found .list (readItems part true rest)
    | '\x7b' :: rest => found .object (readEntries part true rest)
    | '-' :: rest => found Datum.ofNumeral (Numeral.readUnsigned .endInValue true rest)
    | c :: rest => found Datum.ofNumeral (Numeral.readUnsigned .endInValue false (c :: rest))
  shorter := by
    intro s a rest h
    split at h
    · cases h
    · next heq => exact length_lt_of_found heq h fun _ hread => length_le_of_readWord hread
    · next heq => exact length_lt_of_found heq h fun _ hread => length_le_of_readWord hread
    · next heq => exact length_lt_of_found heq h fun _ hread => length_le_of_readWord hread
    · next heq =>
        exact length_lt_of_found heq h fun _ hread => Nat.le_of_lt (length_lt_of_readText hread)
    · next heq =>
        exact length_lt_of_found heq h fun _ hread => Nat.le_of_lt (length_lt_of_readItems hread)
    · next heq =>
        exact length_lt_of_found heq h fun _ hread => Nat.le_of_lt (length_lt_of_readEntries hread)
    · next heq =>
        exact length_lt_of_found heq h fun _ hread =>
          Nat.le_of_lt (Numeral.length_lt_of_readUnsigned hread)
    · next heq =>
        exact length_lt_of_found heq h fun _ hread =>
          Nat.le_of_lt_succ (Numeral.length_lt_of_readUnsigned hread)

/-- Data in which items of lists and members of objects are nested at most so deep. -/
def datum : Nat → Reader Datum
  | 0 => datumOf fail
  | depth + 1 => datumOf (datum depth)

end Reader

namespace Spelling

/-- What is made of an object when `f` is made of its values. -/
def entries? {α : Type} (f : Spelling → Option α) (members : List Member) :
    Option (List (String × α)) :=
  members.mapM fun m => m.1.text?.bind fun key => (f m.2).map fun a => (key, a)

/-- The data of a value when `f` is made of its parts. -/
def datumOf? (f : Spelling → Option Datum) : Spelling → Option Datum
  | null => some .null
  | boolean value => some (.boolean value)
  | number negative form => some (.ofNumeral (form.numeral negative))
  | text literal => literal.text?.map .text
  | list items => (items.mapM f).map .list
  | object members => (entries? f members).map .object

def datum? : Nat → Spelling → Option Datum
  | 0 => datumOf? fun _ => none
  | depth + 1 => datumOf? (datum? depth)

end Spelling

section Entries

variable {α : Type} {value : Reader α} {f : Spelling → Option α}

theorem toOption_readEntry (hvalue : value.Decodes f) {key : Literal} {v : Spelling}
    {t u w x : List Char} (hcolon : Padded t (':' :: u)) (hpadded : Padded u w)
    (hbegins : v.Begins w x) (hend : Ends x) :
    (readEntry value (key.chars ++ '"' :: t)).toOption =
      (key.text?.bind fun name => (f v).map fun a => (name, a)).map fun m => (m, x) := by
  rw [readEntry]
  rcases reading_cases (toOption_readText key t) with ⟨name, htext, hkey⟩ | ⟨htext, fault, hkey⟩
  · simp only [htext, hkey, readColon_of_padded hcolon, toOption_found,
      hvalue hpadded hbegins hend, Option.bind_some, Option.map_map]
    rfl
  · rw [htext, hkey]
    rfl

theorem readEntries_of_closed {isFirst : Bool} {s rest : List Char}
    (h : nextKey isFirst s = .ok (.closed rest)) :
    readEntries value isFirst s = .ok ([], rest) := by
  rw [readEntries]
  split <;> simp_all

theorem toOption_readEntries_of_item {isFirst : Bool} {s t : List Char}
    (h : nextKey isFirst s = .ok (.item t)) :
    (readEntries value isFirst s).toOption = (readEntry value t).toOption.bind fun r =>
      (readEntries value false r.2).toOption.map fun q => (r.1 :: q.1, q.2) := by
  rw [readEntries]
  split
  · simp_all
  · simp_all
  · next t' hnext =>
      obtain rfl : t = t' := by simpa [h] using hnext
      split
      · next hread => rw [hread]; rfl
      · next m rest hread =>
          have htaken : (readEntry value t).toOption = some (m, rest) := by rw [hread]; rfl
          simp only [htaken, Option.bind_some, toOption_found]

theorem toOption_readEntries (hvalue : value.Decodes f) {members : List Member} {isFirst : Bool}
    {s rest : List Char} (h : Spelling.MembersBegin isFirst members s rest) :
    (readEntries value isFirst s).toOption =
      (Spelling.entries? f members).map fun ms => (ms, rest) := by
  induction members generalizing isFirst s with
  | nil =>
      rw [Spelling.MembersBegin] at h
      rw [readEntries_of_closed (nextKey_of_closing h)]
      rfl
  | cons m members ih =>
      obtain ⟨key, v⟩ := m
      rw [Spelling.MembersBegin] at h
      obtain ⟨t, u, w, x, hlead, hcolon, hpadded, hbegins, hrest⟩ := h
      rw [toOption_readEntries_of_item (nextKey_of_lead hlead),
        toOption_readEntry hvalue hcolon hpadded hbegins hrest.ends, Spelling.entries?,
        List.mapM_cons]
      cases key.text?.bind fun name => (f v).map fun a => (name, a) with
      | none => rfl
      | some m =>
          simp only [Option.map_some, Option.bind_some, ih hrest]
          change _ = ((Spelling.entries? f members).bind fun ms => some (m :: ms)).map _
          cases Spelling.entries? f members <;> rfl

end Entries

namespace Reader

theorem fail_decodes {α : Type} : (fail : Reader α).Decodes fun _ => none := by
  intro v s t rest _ _ _
  rfl

theorem datumOf_decodes {part : Reader Datum} {f : Spelling → Option Datum}
    (hpart : part.Decodes f) : (datumOf part).Decodes (Spelling.datumOf? f) := by
  intro v s t rest hpadded h hrest
  have hskip := skipBlanks_of_begins hpadded h
  cases v with
  | null =>
      rw [Spelling.Begins] at h
      subst h
      simp only [datumOf, hskip]
      rfl
  | boolean value =>
      cases value
      all_goals
        rw [Spelling.Begins] at h
        subst h
        simp only [datumOf, hskip]
        rfl
  | number negative form =>
      have hread := form.readUnsigned_append .endInValue negative hrest
      cases negative <;> rw [Spelling.Begins] at h <;> subst h
      · obtain ⟨c, u, hc, hchars⟩ := form.chars_eq_cons rest
        rw [hchars] at hread hskip
        simp only [datumOf, hskip]
        split
        · next heq => cases heq
        all_goals
          next heq =>
            cases heq
            first
              | cases hc
              | rw [toOption_found, hread]; rfl
      · simp only [datumOf, hskip, toOption_found, hread]
        rfl
  | text literal =>
      rw [Spelling.Begins] at h
      subst h
      simp only [datumOf, hskip, toOption_found, toOption_readText, Spelling.datumOf?,
        Option.map_map]
      rfl
  | list items =>
      rw [Spelling.Begins] at h
      obtain ⟨u, rfl, hitems⟩ := h
      simp only [datumOf, hskip, toOption_found, toOption_readItems hpart hitems,
        Spelling.datumOf?, Option.map_map]
      rfl
  | object members =>
      rw [Spelling.Begins] at h
      obtain ⟨u, rfl, hmembers⟩ := h
      simp only [datumOf, hskip, toOption_found, toOption_readEntries hpart hmembers,
        Spelling.datumOf?, Option.map_map]
      rfl

theorem datum_decodes : ∀ depth : Nat, (datum depth).Decodes (Spelling.datum? depth)
  | 0 => datumOf_decodes fail_decodes
  | depth + 1 => datumOf_decodes (datum_decodes depth)

end Reader

/-- The data of a whole text in which parts are nested at most 128 deep. -/
def Datum.parse (text : String) : Except Error Datum := (Reader.datum 128).readWhole text

theorem Datum.ofNumeral_ofNat (n : Nat) :
    Datum.ofNumeral ((NumberForm.ofNat n).numeral false) = .count n := by
  have hnat : ((NumberForm.ofNat n).numeral false).nat? = some n := by
    simp [Numeral.nat?, NumberForm.ofNat, NumberForm.numeral,
      Nat.ofDigitChars_toDigits (by omega : 1 < 10) (by omega : 10 ≤ 10)]
  rw [Datum.ofNumeral, hnat]

namespace Tree

mutual

/-- The data that a tree holds. -/
def datum : Tree → Datum
  | text s => .text s
  | count n => .count n
  | list items => .list (itemData items)
  | object members => .object (memberData members)

def itemData : List Tree → List Datum
  | [] => []
  | item :: items => item.datum :: itemData items

def memberData : List (String × Tree) → List (String × Datum)
  | [] => []
  | (key, value) :: members => (key, value.datum) :: memberData members

end

mutual

/-- How deep the parts of a tree are nested. -/
def depth : Tree → Nat
  | text _ => 0
  | count _ => 0
  | list items => itemDepth items
  | object members => memberDepth members

def itemDepth : List Tree → Nat
  | [] => 0
  | item :: items => max (item.depth + 1) (itemDepth items)

def memberDepth : List (String × Tree) → Nat
  | [] => 0
  | (_, value) :: members => max (value.depth + 1) (memberDepth members)

end

theorem itemData_eq_map (items : List Tree) : itemData items = items.map datum := by
  induction items with
  | nil => rfl
  | cons item items ih => rw [itemData, ih]; rfl

theorem datum?_eq_datumOf? (n : Nat) : ∃ f, Spelling.datum? n = Spelling.datumOf? f ∧
    ∀ m, n = m + 1 → f = Spelling.datum? m := by
  cases n with
  | zero => exact ⟨_, rfl, by simp⟩
  | succ n => exact ⟨_, rfl, by simp⟩

mutual

theorem datum?_spelling (t : Tree) {n : Nat} (h : t.depth ≤ n) :
    t.spelling.datum? n = some t.datum := by
  obtain ⟨f, hf, hparts⟩ := datum?_eq_datumOf? n
  cases t with
  | text s => rw [hf, spelling, Spelling.datumOf?, Literal.text?_ofString]; rfl
  | count k => rw [hf, spelling, Spelling.datumOf?, Datum.ofNumeral_ofNat]; rfl
  | list items =>
      have hitems := mapM_itemSpellings items (f := f) hparts h
      rw [hf, spelling, Spelling.datumOf?, hitems]
      rfl
  | object members =>
      have hmembers := entries?_memberSpellings members (f := f) hparts h
      rw [hf, spelling, Spelling.datumOf?, hmembers]
      rfl

theorem mapM_itemSpellings (items : List Tree) {n : Nat} {f : Spelling → Option Datum}
    (hf : ∀ m, n = m + 1 → f = Spelling.datum? m) (h : itemDepth items ≤ n) :
    (itemSpellings items).mapM f = some (itemData items) := by
  cases items with
  | nil => rfl
  | cons item items =>
      rw [itemDepth] at h
      obtain ⟨m, rfl⟩ : ∃ m, n = m + 1 := ⟨n - 1, by omega⟩
      have hitem := datum?_spelling item (n := m) (by omega)
      have hitems := mapM_itemSpellings items hf (by omega)
      rw [itemSpellings, List.mapM_cons, hitems, hf m rfl, hitem]
      rfl

theorem entries?_memberSpellings (members : List (String × Tree)) {n : Nat}
    {f : Spelling → Option Datum} (hf : ∀ m, n = m + 1 → f = Spelling.datum? m)
    (h : memberDepth members ≤ n) :
    Spelling.entries? f (memberSpellings members) = some (memberData members) := by
  cases members with
  | nil => rfl
  | cons member members =>
      obtain ⟨key, value⟩ := member
      rw [memberDepth] at h
      obtain ⟨m, rfl⟩ : ∃ m, n = m + 1 := ⟨n - 1, by omega⟩
      have hvalue := datum?_spelling value (n := m) (by omega)
      have hmembers := entries?_memberSpellings members hf (by omega)
      rw [Spelling.entries?] at hmembers
      rw [memberSpellings, Spelling.entries?, List.mapM_cons, hmembers, Literal.text?_ofString,
        hf m rfl, hvalue]
      rfl

end

/-- A tree that is printed, with a new line at the end, is read back. -/
theorem parse_printed {t : Tree} (h : t.depth ≤ 128) :
    Datum.parse (t.toLines ++ "\n") = .ok t.datum := by
  have htext : t.spelling.IsText (t.toLines ++ "\n").toList := by
    rw [String.toList_append, toLines, String.toList_ofList]
    exact ⟨_, _, Padded.refl _, t.begins_lines 0 "\n".toList, ⟨"\n".toList, by simp [isBlank], rfl⟩⟩
  exact ok_of_toOption
    (((Reader.datum_decodes 128).toOption_readWhole htext).trans (datum?_spelling t h))

end Tree

end DesignCoupling.Json
