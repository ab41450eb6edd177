import DesignCoupling.Json.Record
import DesignCoupling.Proofs.Json.Skipping

/-!
# Decoding values

What a reader makes of a text depends on nothing but the value that is written there: not on the
blanks between the tokens, and not on what follows. So every reader is a function of spelled values,
which this module works out for the typed readers.
-/

namespace DesignCoupling.Json

theorem NumberForm.chars_append_ne (n : NumberForm) {c : Char} (hc : c.isDigit = false)
    (s t : List Char) : n.chars ++ s ≠ c :: t := by
  obtain ⟨d, u, hd, hchars⟩ := n.chars_eq_cons s
  rw [hchars]
  rintro ⟨⟩
  rw [hc] at hd
  cases hd

namespace Spelling.Begins

variable {v : Spelling} {t rest : List Char}

theorem cases_of_head {c : Char} (h : v.Begins (c :: t) rest) (hdigit : c.isDigit = false)
    (hminus : c ≠ '-') :
    (c = 'n' ∧ v = .null ∧ t = ['u', 'l', 'l'] ++ rest) ∨
    ((c = 't' ∨ c = 'f') ∧ ∃ value, v = .boolean value) ∨
    (c = '"' ∧ ∃ l : Literal, v = .text l ∧ t = l.chars ++ '"' :: rest) ∨
    (c = '[' ∧ ∃ items, v = .list items ∧ ItemsBegin true items t rest) ∨
    c = '\x7b' ∧ ∃ members, v = .object members ∧ MembersBegin true members t rest := by
  cases v with
  | number negative form =>
      cases negative <;> rw [Begins] at h
      · exact (form.chars_append_ne hdigit _ _ h.symm).elim
      · exact (hminus (List.cons.inj h).1).elim
  | boolean value => cases value <;> simp_all [Begins]
  | list items =>
      rw [Begins] at h
      obtain ⟨u, ⟨⟩, hitems⟩ := h
      simpa using hitems
  | object members =>
      rw [Begins] at h
      obtain ⟨u, ⟨⟩, hmembers⟩ := h
      simpa using hmembers
  | _ => simp_all [Begins]

theorem null_of_letter (h : v.Begins ('n' :: t) rest) :
    v = .null ∧ t = ['u', 'l', 'l'] ++ rest := by
  simpa using h.cases_of_head rfl (by decide)

theorem text_of_quote (h : v.Begins ('"' :: t) rest) :
    ∃ l : Literal, v = .text l ∧ t = l.chars ++ '"' :: rest := by
  simpa using h.cases_of_head rfl (by decide)

theorem list_of_bracket (h : v.Begins ('[' :: t) rest) :
    ∃ items, v = .list items ∧ ItemsBegin true items t rest := by
  simpa using h.cases_of_head rfl (by decide)

theorem object_of_brace (h : v.Begins ('\x7b' :: t) rest) :
    ∃ members, v = .object members ∧ MembersBegin true members t rest := by
  simpa using h.cases_of_head rfl (by decide)

end Spelling.Begins

namespace Reader

variable {α β : Type} {reader : Reader α} {f : Spelling → Option α}

/-- The reader makes `f v` of every text that begins with the value `v`, and leaves what follows.
Where `f v` is nothing it reports a fault. -/
def Decodes (reader : Reader α) (f : Spelling → Option α) : Prop :=
  ∀ ⦃v : Spelling⦄ ⦃s t rest : List Char⦄, Padded s t → v.Begins t rest → Ends rest →
    (reader.read s).toOption = (f v).map fun a => (a, rest)

/-- What a reader makes of the text without blanks of a value. -/
def decode (reader : Reader α) (v : Spelling) : Option α :=
  (reader.read v.chars).toOption.map Prod.fst

/-- The reader makes the same of all texts of a value. -/
def Steady (reader : Reader α) : Prop := reader.Decodes reader.decode

theorem Decodes.decode_eq (h : reader.Decodes f) (v : Spelling) : reader.decode v = f v := by
  have hbegins := v.begins_chars []
  rw [List.append_nil] at hbegins
  rw [decode, h (Padded.refl _) hbegins ends_nil, Option.map_map]
  exact Option.map_id'

theorem Decodes.steady (h : reader.Decodes f) : reader.Steady := by
  intro v s t rest hpadded hbegins hrest
  rw [h.decode_eq, h hpadded hbegins hrest]

theorem Decodes.map (h : reader.Decodes f) (g : α → β) :
    (reader.map g).Decodes fun v => (f v).map g := by
  intro v s t rest hpadded hbegins hrest
  simp only [Reader.map]
  rcases reading_cases (h hpadded hbegins hrest) with ⟨a, hf, hread⟩ | ⟨hf, fault, hread⟩
  · rw [hread, hf]
    rfl
  · rw [hread, hf]
    rfl

end Reader

namespace Spelling

def unit? : Spelling → Option Unit
  | null => some ()
  | _ => none

def text? : Spelling → Option String
  | text literal => literal.text?
  | _ => none

def optionalText? : Spelling → Option (Option String)
  | null => some none
  | v => v.text?.map some

end Spelling

namespace Reader

theorem skipBlanks_of_begins {v : Spelling} {s t rest : List Char} (hpadded : Padded s t)
    (h : v.Begins t rest) : skipBlanks s = t :=
  hpadded.skipBlanks_eq.trans h.opens.skipBlanks_eq

theorem null_decodes (wanted : String) : (null wanted).Decodes Spelling.unit? := by
  intro v s t rest hpadded h hrest
  simp only [null, skipBlanks_of_begins hpadded h]
  split
  · obtain ⟨rfl, rfl⟩ := h.null_of_letter
    rw [readWord_append]
    rfl
  · next hother =>
      have hnull : v.unit? = none := by
        cases v with
        | null => rw [Spelling.Begins] at h; exact (hother _ h).elim
        | _ => rfl
      rw [hnull]
      rfl

theorem text_decodes : text.Decodes Spelling.text? := by
  intro v s t rest hpadded h hrest
  simp only [text, skipBlanks_of_begins hpadded h]
  split
  · obtain ⟨l, rfl, rfl⟩ := h.text_of_quote
    exact toOption_readText l rest
  · next hother =>
      have htext : v.text? = none := by
        cases v with
        | text l => rw [Spelling.Begins] at h; exact (hother _ h).elim
        | _ => rfl
      rw [htext]
      rfl

theorem optionalText_decodes : optionalText.Decodes Spelling.optionalText? := by
  intro v s t rest hpadded h hrest
  have hskip := skipBlanks_of_begins hpadded h
  simp only [optionalText, hskip]
  split
  · obtain ⟨rfl, -⟩ := h.null_of_letter
    exact (null_decodes "a string").map (fun _ => none) (Padded.refl _) h hrest
  · next hother =>
      have hv : v.optionalText? = v.text?.map some := by
        cases v with
        | null => rw [Spelling.Begins] at h; exact (hother _ h).elim
        | _ => rfl
      rw [hv]
      exact text_decodes.map some (Padded.refl _) h hrest

end Reader

section Items

variable {isFirst : Bool} {s t rest : List Char}

theorem nextItem_of_closing (h : Padded s (']' :: rest)) :
    nextItem isFirst s = .ok (.closed rest) := by
  rw [nextItem, h.skipBlanks_eq, skipBlanks_cons (by decide)]
  rfl

theorem nextItem_of_lead (h : Lead isFirst s t) (ht : Opens t) :
    nextItem isFirst s = .ok (.item t) := by
  cases isFirst with
  | true =>
      have hskip := h.skipBlanks_first ht
      obtain ⟨c, u, rfl, -, -, hc, -⟩ := ht
      rw [nextItem, hskip]
      split <;> simp_all
  | false =>
      obtain ⟨u, hcomma, hskip⟩ := h.skipBlanks_comma ht
      obtain ⟨c, w, rfl, -, -, hc, -⟩ := ht
      rw [nextItem, hcomma]
      split
      · next heq => cases heq
      · next heq => cases heq
      · next heq =>
          cases heq
          rw [if_neg (by decide), if_pos rfl, hskip]
          split <;> simp_all

end Items

namespace Spelling

/-- What is made of a list when `f` is made of its items. -/
def items? {α : Type} (f : Spelling → Option α) : Spelling → Option (List α)
  | list items => items.mapM f
  | _ => none

end Spelling

namespace Reader

variable {α : Type} {item : Reader α} {f : Spelling → Option α}

theorem readItems_of_closed {isFirst : Bool} {s rest : List Char}
    (h : nextItem isFirst s = .ok (.closed rest)) : readItems item isFirst s = .ok ([], rest) := by
  rw [readItems]
  split <;> simp_all

theorem toOption_readItems_of_item {isFirst : Bool} {s t : List Char}
    (h : nextItem isFirst s = .ok (.item t)) :
    (readItems item isFirst s).toOption = (item.read t).toOption.bind fun r =>
      (readItems item false r.2).toOption.map fun q => (r.1 :: q.1, q.2) := by
  rw [readItems]
  split
  · simp_all
  · simp_all
  · next t' hnext =>
      obtain rfl : t = t' := by simpa [h] using hnext
      split
      · next hread => rw [hread]; rfl
      · next a rest hread =>
          have htaken : (item.read t).toOption = some (a, rest) := by rw [hread]; rfl
          simp only [htaken, Option.bind_some]
          cases readItems item false rest <;> rfl

theorem toOption_readItems (hitem : item.Decodes f) {items : List Spelling} {isFirst : Bool}
    {s rest : List Char} (h : Spelling.ItemsBegin isFirst items s rest) :
    (readItems item isFirst s).toOption = (items.mapM f).map fun as => (as, rest) := by
  induction items generalizing isFirst s with
  | nil =>
      rw [Spelling.ItemsBegin] at h
      rw [readItems_of_closed (nextItem_of_closing h)]
      rfl
  | cons i items ih =>
      rw [Spelling.ItemsBegin] at h
      obtain ⟨t, u, hlead, hi, hrest⟩ := h
      rw [toOption_readItems_of_item (nextItem_of_lead hlead hi.opens),
        hitem (Padded.refl _) hi hrest.ends, List.mapM_cons]
      cases f i with
      | none => rfl
      | some a =>
          simp only [Option.map_some, Option.bind_some, ih hrest]
          cases items.mapM f <;> rfl

theorem list_decodes (hitem : item.Decodes f) : (list item).Decodes (Spelling.items? f) := by
  intro v s t rest hpadded h hrest
  simp only [list, skipBlanks_of_begins hpadded h]
  split
  · obtain ⟨items, rfl, hitems⟩ := h.list_of_bracket
    exact toOption_readItems hitem hitems
  · next hother =>
      have hlist : v.items? f = none := by
        cases v with
        | list items =>
            rw [Spelling.Begins] at h
            obtain ⟨u, ht, -⟩ := h
            exact (hother u ht).elim
        | _ => rfl
      rw [hlist]
      rfl

end Reader

section Keys

variable {isFirst : Bool} {s t rest : List Char}

theorem nextKey_of_closing (h : Padded s ('\x7d' :: rest)) :
    nextKey isFirst s = .ok (.closed rest) := by
  rw [nextKey, h.skipBlanks_eq, skipBlanks_cons (by decide)]
  rfl

theorem nextKey_of_lead (h : Lead isFirst s ('"' :: t)) : nextKey isFirst s = .ok (.item t) := by
  cases isFirst with
  | true =>
      rw [nextKey, h.skipBlanks_first (opens_quote t)]
      rfl
  | false =>
      obtain ⟨u, hcomma, hskip⟩ := h.skipBlanks_comma (opens_quote t)
      rw [nextKey, hcomma]
      split
      · next heq => cases heq
      · next heq => cases heq
      · next heq =>
          cases heq
          rw [if_neg (by decide), if_pos rfl, hskip]
          rfl

end Keys

namespace Spelling

/-- A word that stands alone, or as the only key of an object whose value is null. -/
def word? {α : Type} (ofLabel? : String → Option α) : Spelling → Option α
  | text literal => literal.text?.bind ofLabel?
  | object [(key, null)] => key.text?.bind ofLabel?
  | _ => none

theorem word?_object_cons {α : Type} (ofLabel? : String → Option α) (key : Literal)
    (value : Spelling) (members : List Member) :
    (object ((key, value) :: members)).word? ofLabel? =
      (key.text?.bind ofLabel?).bind fun a =>
        value.unit?.bind fun _ => if members = [] then some a else none := by
  cases value <;> cases members <;> simp [word?, unit?]

end Spelling

namespace Reader

variable {α : Type} {known : List String} {ofLabel? : String → Option α}

theorem toOption_wordEnd {members : List Member} {s rest : List Char}
    (h : Spelling.MembersBegin false members s rest) :
    (wordEnd s).toOption = if members = [] then some ((), rest) else none := by
  cases members with
  | nil =>
      rw [Spelling.MembersBegin] at h
      rw [wordEnd, h.skipBlanks_eq, skipBlanks_cons (by decide)]
      rfl
  | cons m members =>
      obtain ⟨key, value⟩ := m
      rw [Spelling.MembersBegin] at h
      obtain ⟨t, u, v, w, ⟨x, hcomma, -⟩, -⟩ := h
      rw [wordEnd, hcomma.skipBlanks_eq, skipBlanks_cons (by decide)]
      rfl

theorem toOption_knownWord (known : List String) (ofLabel? : String → Option α) (l : Literal)
    (rest : List Char) :
    (knownWord known ofLabel? (l.chars ++ '"' :: rest)).toOption =
      (l.text?.bind ofLabel?).map fun a => (a, rest) := by
  rw [knownWord]
  rcases reading_cases (toOption_readText l rest) with ⟨label, htext, hread⟩ | ⟨htext, fault, hread⟩
  · simp only [hread, htext, Option.bind_some]
    cases ofLabel? label <;> rfl
  · rw [hread, htext]
    rfl

theorem toOption_wordObject {members : List Member} {s rest : List Char}
    (h : Spelling.MembersBegin true members s rest) :
    (wordObject known ofLabel? s).toOption =
      ((Spelling.object members).word? ofLabel?).map fun a => (a, rest) := by
  cases members with
  | nil =>
      rw [Spelling.MembersBegin] at h
      rw [wordObject, h.skipBlanks_eq, skipBlanks_cons (by decide)]
      rfl
  | cons m members =>
      obtain ⟨key, value⟩ := m
      rw [Spelling.MembersBegin] at h
      obtain ⟨t, u, v, w, hlead, hcolon, hpadded, hvalue, hend⟩ := h
      rw [wordObject, hlead.skipBlanks_first (opens_quote _), Spelling.word?_object_cons]
      simp only
      rcases reading_cases (toOption_knownWord known ofLabel? key t) with
        ⟨a, hlabel, hword⟩ | ⟨hlabel, fault, hword⟩
      · simp only [hlabel, hword, readColon_of_padded hcolon, Option.bind_some]
        rcases reading_cases (null_decodes "unit" hpadded hvalue hend.ends) with
          ⟨_, hunit, hnull⟩ | ⟨hunit, fault, hnull⟩
        · simp only [hunit, hnull, Option.bind_some]
          have hlast := toOption_wordEnd hend
          split at hlast
          · next hnil =>
              rw [ok_of_toOption hlast, if_pos hnil]
              rfl
          · next hcons =>
              obtain ⟨fault, herror⟩ := error_of_toOption hlast
              rw [herror, if_neg hcons]
              rfl
        · rw [hunit, hnull]
          rfl
      · rw [hlabel, hword]
        rfl

theorem word_decodes : (word known ofLabel?).Decodes (Spelling.word? ofLabel?) := by
  intro v s t rest hpadded h hrest
  simp only [word, skipBlanks_of_begins hpadded h]
  split
  · obtain ⟨c, u, hcons, -⟩ := h.opens
    cases hcons
  · obtain ⟨l, rfl, rfl⟩ := h.text_of_quote
    exact toOption_knownWord known ofLabel? l rest
  · obtain ⟨members, rfl, hmembers⟩ := h.object_of_brace
    exact toOption_wordObject hmembers
  · next hquote hbrace =>
      have hword : v.word? ofLabel? = none := by
        cases v with
        | text l => rw [Spelling.Begins] at h; exact (hquote _ h).elim
        | object members =>
            rw [Spelling.Begins] at h
            obtain ⟨u, ht, -⟩ := h
            exact (hbrace u ht).elim
        | _ => rfl
      rw [hword]
      rfl

/-- What is made of a whole text is what is made of its value. -/
theorem Decodes.toOption_readWhole {reader : Reader α} {f : Spelling → Option α}
    (h : reader.Decodes f) {v : Spelling} {text : String} (htext : v.IsText text.toList) :
    (reader.readWhole text).toOption = f v := by
  obtain ⟨t, u, hpadded, hbegins, hend⟩ := htext
  rw [readWhole]
  rcases reading_cases (h hpadded hbegins (hend.ends ends_nil)) with
    ⟨a, hf, hread⟩ | ⟨hf, fault, hread⟩
  · simp only [hread, hf, hend.skipBlanks_eq]
    rfl
  · rw [hread, hf]
    rfl

end Reader

end DesignCoupling.Json
