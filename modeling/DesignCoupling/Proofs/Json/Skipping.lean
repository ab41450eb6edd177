import DesignCoupling.Proofs.Json.Tokens

/-!
# Passing over values

The loop that passes over a value stops right behind it, however deep the value is nested, and goes
on with the brackets that were open before. The induction is on the value: when the loop is past one
item, what is left of the items decides what the innermost open bracket waits for.
-/

namespace DesignCoupling.Json

/-- The text begins with a character that is neither a blank nor punctuation after a value. -/
def Opens (s : List Char) : Prop :=
  ∃ c t, s = c :: t ∧ isBlank c = false ∧ c ≠ ',' ∧ c ≠ ']' ∧ c ≠ '\x7d'

theorem Opens.skipBlanks_eq {s : List Char} (h : Opens s) : skipBlanks s = s := by
  obtain ⟨c, t, rfl, hblank, -⟩ := h
  exact skipBlanks_cons hblank t

theorem Lead.skipBlanks_first {s t : List Char} (h : Lead true s t) (ht : Opens t) :
    skipBlanks s = t :=
  (Padded.skipBlanks_eq h).trans ht.skipBlanks_eq

theorem Lead.skipBlanks_comma {s t : List Char} (h : Lead false s t) (ht : Opens t) :
    ∃ u, skipBlanks s = ',' :: u ∧ skipBlanks u = t := by
  obtain ⟨u, hcomma, hu⟩ := h
  exact ⟨u, hcomma.skipBlanks_eq.trans (skipBlanks_cons (by decide) u),
    hu.skipBlanks_eq.trans ht.skipBlanks_eq⟩

theorem opens_of_isDigit {c : Char} (h : c.isDigit = true) (s : List Char) : Opens (c :: s) := by
  have hne : ∀ d : Char, d.isDigit = false → c ≠ d := by
    rintro d hd rfl
    rw [h] at hd
    cases hd
  have hblank : isBlank c = false := by
    simp [isBlank, hne ' ' rfl, hne '\t' rfl, hne '\n' rfl, hne '\r' rfl]
  exact ⟨c, s, rfl, hblank, hne _ rfl, hne _ rfl, hne _ rfl⟩

theorem NumberForm.chars_eq_cons (n : NumberForm) (s : List Char) :
    ∃ c t, c.isDigit = true ∧ n.chars ++ s = c :: t := by
  rcases n.isWhole with hzero | ⟨c, digits, hwhole, -, hdigits⟩
  · exact ⟨'0', _, rfl, by rw [n.chars_append, hzero]; rfl⟩
  · exact ⟨c, _, hdigits c List.mem_cons_self, by rw [n.chars_append, hwhole]; rfl⟩

theorem opens_quote (s : List Char) : Opens ('"' :: s) :=
  ⟨'"', s, rfl, by decide, by decide, by decide, by decide⟩

theorem Spelling.Begins.opens {v : Spelling} {s rest : List Char} (h : v.Begins s rest) :
    Opens s := by
  cases v with
  | null => rw [Spelling.Begins] at h; exact ⟨'n', _, h, by decide⟩
  | boolean value =>
      cases value <;> rw [Spelling.Begins] at h
      · exact ⟨'f', _, h, by decide⟩
      · exact ⟨'t', _, h, by decide⟩
  | number negative form =>
      cases negative <;> rw [Spelling.Begins] at h
      · obtain ⟨c, t, hc, hchars⟩ := form.chars_eq_cons rest
        rw [h, hchars]
        exact opens_of_isDigit hc t
      · exact ⟨'-', _, h, by decide⟩
  | text literal => rw [Spelling.Begins] at h; exact h ▸ opens_quote _
  | list items =>
      rw [Spelling.Begins] at h
      obtain ⟨t, rfl, -⟩ := h
      exact ⟨'[', t, rfl, by decide⟩
  | object members =>
      rw [Spelling.Begins] at h
      obtain ⟨t, rfl, -⟩ := h
      exact ⟨'\x7b', t, rfl, by decide⟩

theorem Spelling.ItemsBegin.ends {items : List Spelling} {s rest : List Char}
    (h : Spelling.ItemsBegin false items s rest) : Ends s := by
  cases items with
  | nil =>
      rw [Spelling.ItemsBegin] at h
      exact h.ends (by simp [Ends])
  | cons item items =>
      rw [Spelling.ItemsBegin] at h
      obtain ⟨t, u, ⟨w, hcomma, -⟩, -⟩ := h
      exact hcomma.ends (by simp [Ends])

theorem Spelling.MembersBegin.ends {members : List Member} {s rest : List Char}
    (h : Spelling.MembersBegin false members s rest) : Ends s := by
  cases members with
  | nil =>
      rw [Spelling.MembersBegin] at h
      exact h.ends (by simp [Ends])
  | cons m members =>
      obtain ⟨key, value⟩ := m
      rw [Spelling.MembersBegin] at h
      obtain ⟨t, u, v, w, ⟨x, hcomma, -⟩, -⟩ := h
      exact hcomma.ends (by simp [Ends])

theorem passFront_of_isDigit {c : Char} (h : c.isDigit = true) (s : List Char) :
    passFront (c :: s) = passed (Numeral.readUnsigned .badNumber false (c :: s)) := by
  rw [passFront, (opens_of_isDigit h s).skipBlanks_eq]
  split <;> simp_all

section Steps

variable {s t rest : List Char} {bracket : Bracket} {opened : List Bracket}

theorem passValue_of_passed (h : passFront s = .ok (none, rest)) :
    passValue opened s = passOn opened rest := by
  rw [passValue]
  split <;> simp_all

theorem passValue_of_opened (h : passFront s = .ok (some bracket, rest)) :
    passValue opened s = passFirst bracket opened rest := by
  rw [passValue]
  split <;> simp_all

theorem passFirst_of_closing (h : skipBlanks s = bracket.closing :: rest) :
    passFirst bracket opened s = passOn opened rest := by
  rw [passFirst]
  split <;> simp_all

theorem passFirst_of_item {c : Char} (h : skipBlanks s = c :: rest) (hc : c ≠ bracket.closing) :
    passFirst bracket opened s = passItem bracket opened s := by
  rw [passFirst]
  split <;> simp_all

theorem passOn_of_comma (h : skipBlanks s = ',' :: rest) :
    passOn (bracket :: opened) s = passItem bracket opened rest := by
  rw [passOn]
  split <;> simp_all

theorem passOn_of_closing (h : skipBlanks s = bracket.closing :: rest) :
    passOn (bracket :: opened) s = passOn opened rest := by
  have hcomma : bracket.closing ≠ ',' := by cases bracket <;> decide
  rw [passOn]
  split <;> simp_all

theorem passValue_congr (h : skipBlanks s = skipBlanks t) :
    passValue opened s = passValue opened t := by
  have hfront : passFront s = passFront t := by rw [passFront, passFront, h]
  cases ht : passFront t with
  | error fault => rw [passValue, passValue]; split <;> split <;> simp_all
  | ok r =>
      obtain ⟨_ | bracket, rest⟩ := r
      · rw [passValue_of_passed ht, passValue_of_passed (hfront.trans ht)]
      · rw [passValue_of_opened ht, passValue_of_opened (hfront.trans ht)]

theorem passItem_object_of_passKey (h : passKey s = .ok ((), rest)) :
    passItem .object opened s = passValue (.object :: opened) rest := by
  rw [passItem]
  split <;> simp_all

theorem passItem_congr (h : skipBlanks s = skipBlanks t) :
    passItem bracket opened s = passItem bracket opened t := by
  cases bracket with
  | list => rw [passItem, passItem, passValue_congr h]
  | object =>
      have hkey : passKey s = passKey t := by rw [passKey, passKey, h]
      rw [passItem, passItem]
      split <;> split <;> simp_all

/-- What the loop does inside a bracket: it is in front of the first item, or behind an item. -/
def passItems (isFirst : Bool) (bracket : Bracket) (opened : List Bracket) (s : List Char) :
    Reading Unit :=
  if isFirst then passFirst bracket opened s else passOn (bracket :: opened) s

theorem passItems_of_closing {isFirst : Bool} (h : Padded s (bracket.closing :: rest)) :
    passItems isFirst bracket opened s = passOn opened rest := by
  have hclosing : isBlank bracket.closing = false := by cases bracket <;> decide
  have hskip := h.skipBlanks_eq.trans (skipBlanks_cons hclosing rest)
  cases isFirst
  · exact passOn_of_closing hskip
  · exact passFirst_of_closing hskip

theorem passItems_of_lead {isFirst : Bool} (h : Lead isFirst s t) (ht : Opens t) :
    passItems isFirst bracket opened s = passItem bracket opened t := by
  cases isFirst with
  | true =>
      have hskip := h.skipBlanks_first ht
      have hsame := hskip.trans ht.skipBlanks_eq.symm
      obtain ⟨c, u, rfl, -, -, hlist, hobject⟩ := ht
      have hc : c ≠ bracket.closing := by cases bracket <;> assumption
      rw [passItems, if_pos rfl, passFirst_of_item hskip hc]
      exact passItem_congr hsame
  | false =>
      obtain ⟨u, hcomma, hu⟩ := h.skipBlanks_comma ht
      rw [passItems, if_neg (by decide), passOn_of_comma hcomma]
      exact passItem_congr (hu.trans ht.skipBlanks_eq.symm)

theorem readColon_of_padded (h : Padded s (':' :: rest)) : readColon s = .ok ((), rest) := by
  rw [readColon, h.skipBlanks_eq, skipBlanks_cons (by decide)]
  rfl

theorem passKey_literal {key : Literal} (h : Padded t (':' :: rest)) :
    passKey ('"' :: (key.chars ++ '"' :: t)) = .ok ((), rest) := by
  rw [passKey, skipBlanks_cons (by decide)]
  simp only [passChars_literal, readColon_of_padded h]

end Steps

theorem readWord_append (word s : List Char) : readWord word (word ++ s) = .ok ((), s) := by
  induction word with
  | nil => rfl
  | cons c word ih => rw [List.cons_append, readWord, if_pos rfl, ih]

namespace Spelling

/-- The loop passes over this value, whatever brackets are open. -/
def Passes (v : Spelling) : Prop :=
  ∀ {opened : List Bracket} {s rest : List Char}, v.Begins s rest → Ends rest →
    passValue opened s = passOn opened rest

theorem passes_items {items : List Spelling} (hitems : ∀ item ∈ items, item.Passes)
    {isFirst : Bool} {opened : List Bracket} {s rest : List Char}
    (h : ItemsBegin isFirst items s rest) :
    passItems isFirst .list opened s = passOn opened rest := by
  induction items generalizing isFirst s with
  | nil =>
      rw [ItemsBegin] at h
      exact passItems_of_closing h
  | cons item items ih =>
      rw [ItemsBegin] at h
      obtain ⟨t, u, hlead, hitem, hrest⟩ := h
      rw [passItems_of_lead hlead hitem.opens, passItem,
        hitems item List.mem_cons_self hitem hrest.ends]
      exact ih (fun i hi => hitems i (List.mem_cons_of_mem _ hi)) hrest

theorem passes_members {members : List Member}
    (hmembers : ∀ m ∈ members, m.2.Passes) {isFirst : Bool} {opened : List Bracket}
    {s rest : List Char} (h : MembersBegin isFirst members s rest) :
    passItems isFirst .object opened s = passOn opened rest := by
  induction members generalizing isFirst s with
  | nil =>
      rw [MembersBegin] at h
      exact passItems_of_closing h
  | cons m members ih =>
      obtain ⟨key, value⟩ := m
      rw [MembersBegin] at h
      obtain ⟨t, u, v, w, hlead, hcolon, hpadded, hvalue, hrest⟩ := h
      rw [passItems_of_lead hlead (opens_quote _),
        passItem_object_of_passKey (passKey_literal hcolon), passValue_congr hpadded.skipBlanks_eq,
        hmembers (key, value) List.mem_cons_self hvalue hrest.ends]
      exact ih (fun m hm => hmembers m (List.mem_cons_of_mem _ hm)) hrest

/-- Every value is passed over, up to its end. -/
theorem passes (v : Spelling) : v.Passes := by
  induction v with
  | null =>
      intro opened s rest h _
      rw [Begins] at h
      apply passValue_of_passed
      rw [h, passFront, skipBlanks_cons (by decide)]
      rfl
  | boolean value =>
      intro opened s rest h _
      cases value
      all_goals
        rw [Begins] at h
        apply passValue_of_passed
        rw [h, passFront, skipBlanks_cons (by decide)]
        rfl
  | number negative form =>
      intro opened s rest h hrest
      apply passValue_of_passed
      have hopens := h.opens.skipBlanks_eq
      cases negative <;> rw [Begins] at h
      · obtain ⟨c, t, hc, hchars⟩ := form.chars_eq_cons rest
        have hread := form.readUnsigned_append .badNumber false hrest
        rw [hchars] at h hread
        rw [h, passFront_of_isDigit hc, hread, passed]
      · subst h
        rw [passFront, hopens]
        simp only [form.readUnsigned_append .badNumber true hrest, passed]
  | text literal =>
      intro opened s rest h _
      rw [Begins] at h
      apply passValue_of_passed
      rw [h, passFront, skipBlanks_cons (by decide)]
      simp only [passChars_literal, passed]
  | list items ih =>
      intro opened s rest h _
      rw [Begins] at h
      obtain ⟨t, rfl, hitems⟩ := h
      have hfront : passFront ('[' :: t) = .ok (some .list, t) := by
        rw [passFront, skipBlanks_cons (by decide)]
        rfl
      rw [passValue_of_opened hfront]
      exact passes_items ih hitems
  | object members ih =>
      intro opened s rest h _
      rw [Begins] at h
      obtain ⟨t, rfl, hmembers⟩ := h
      have hfront : passFront ('\x7b' :: t) = .ok (some .object, t) := by
        rw [passFront, skipBlanks_cons (by decide)]
        rfl
      rw [passValue_of_opened hfront]
      exact passes_members ih hmembers

theorem passValue_nil {v : Spelling} {s t rest : List Char} (hpadded : Padded s t)
    (h : v.Begins t rest) (hrest : Ends rest) : passValue [] s = .ok ((), rest) := by
  rw [passValue_congr hpadded.skipBlanks_eq, v.passes h hrest, passOn]

end Spelling

end DesignCoupling.Json
