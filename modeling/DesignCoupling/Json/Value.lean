import DesignCoupling.Json.Skip

/-!
# Readers for typed values

Texts, texts that may be null, lists, and words of a fixed set. A value of another sort is read as
far as it takes to name it in the fault.
-/

namespace DesignCoupling.Json

/-- The fault for a value that has been read only to be named. -/
def misplaced {α : Type} (wanted : String) (name : α → Found) (r : Reading α) : Fault :=
  match r with
  | .error fault => fault
  | .ok (a, rest) => .before (.wrongType (name a) wanted) rest

/-- The fault at a value that is not of the wanted sort. Lists and objects are not opened. -/
def mismatch (wanted : String) (s : List Char) : Fault :=
  match s with
  | [] => .before .endInValue []
  | 'n' :: rest => misplaced wanted (fun _ => .null) (readWord ['u', 'l', 'l'] rest)
  | 't' :: rest => misplaced wanted (fun _ => .boolean true) (readWord ['r', 'u', 'e'] rest)
  | 'f' :: rest => misplaced wanted (fun _ => .boolean false) (readWord ['a', 'l', 's', 'e'] rest)
  | '-' :: rest => misplaced wanted id (Numeral.readFound true rest)
  | '"' :: rest => misplaced wanted .text (readText rest)
  | '[' :: _ => .before (.wrongType .sequence wanted) s
  | '\x7b' :: _ => .before (.wrongType .map wanted) s
  | c :: _ =>
      if c.isDigit then misplaced wanted id (Numeral.readFound false s)
      else .into .expectedValue s

/-- Where a bracketed sequence goes on. -/
inductive Turn where
  | item (s : List Char)
  | closed (rest : List Char)

/-- The next item of a list, or its end. -/
def nextItem (isFirst : Bool) (s : List Char) : Except Fault Turn :=
  match skipBlanks s with
  | [] => .error (.before .endInList [])
  | ']' :: rest => .ok (.closed rest)
  | c :: rest =>
      if isFirst then .ok (.item (c :: rest))
      else if c = ',' then
        match skipBlanks rest with
        | [] => .error (.before .endInValue [])
        | ']' :: rest => .error (.into .trailingComma (']' :: rest))
        | s => .ok (.item s)
      else .error (.into .expectedListCommaOrEnd (c :: rest))

/-- The text of the next key of an object, its opening quote taken, or the end of the object. -/
def nextKey (isFirst : Bool) (s : List Char) : Except Fault Turn :=
  match skipBlanks s with
  | [] => .error (.before .endInObject [])
  | '\x7d' :: rest => .ok (.closed rest)
  | c :: rest =>
      if isFirst then
        if c = '"' then .ok (.item rest) else .error (.into .keyNotText (c :: rest))
      else if c = ',' then
        match skipBlanks rest with
        | [] => .error (.before .endInValue [])
        | '"' :: rest => .ok (.item rest)
        | '\x7d' :: rest => .error (.into .trailingComma ('\x7d' :: rest))
        | s => .error (.into .keyNotText s)
      else .error (.into .expectedObjectCommaOrEnd (c :: rest))

theorem nextItem_length {isFirst : Bool} {s : List Char} {turn : Turn}
    (h : nextItem isFirst s = .ok turn) :
    (∀ t, turn = .item t → t.length ≤ s.length) ∧
      ∀ t, turn = .closed t → t.length < s.length := by
  have hle := length_skipBlanks_le s
  unfold nextItem at h
  grind [length_skipBlanks_le]

theorem nextKey_length {isFirst : Bool} {s : List Char} {turn : Turn}
    (h : nextKey isFirst s = .ok turn) :
    (∀ t, turn = .item t → t.length < s.length) ∧
      ∀ t, turn = .closed t → t.length < s.length := by
  have hle := length_skipBlanks_le s
  unfold nextKey at h
  grind [length_skipBlanks_le]

/-- The items of a list whose bracket has been read. -/
def readItems {α : Type} (item : Reader α) (isFirst : Bool) (s : List Char) : Reading (List α) :=
  match h : nextItem isFirst s with
  | .error fault => .error fault
  | .ok (.closed rest) => .ok ([], rest)
  | .ok (.item t) =>
      match h' : item.read t with
      | .error fault => .error fault
      | .ok (a, rest) =>
          have : rest.length < s.length :=
            Nat.lt_of_lt_of_le (item.shorter h') ((nextItem_length h).1 t rfl)
          match readItems item false rest with
          | .error fault => .error fault
          | .ok (as, rest) => .ok (a :: as, rest)
termination_by s.length

theorem length_lt_of_readItems {α : Type} {item : Reader α} {isFirst : Bool} {s rest : List Char}
    {as : List α} (h : readItems item isFirst s = .ok (as, rest)) : rest.length < s.length := by
  fun_induction readItems item isFirst s generalizing as rest with
  | case1 => simp at h
  | case2 s _ t hnext =>
      simp only [Except.ok.injEq, Prod.mk.injEq] at h
      exact h.2 ▸ (nextItem_length hnext).2 t rfl
  | case3 => simp at h
  | case4 => simp at h
  | case5 _ _ _ _ _ _ _ hlt _ _ hread ih =>
      simp only [Except.ok.injEq, Prod.mk.injEq] at h
      exact h.2 ▸ Nat.lt_trans (ih hread) hlt

namespace Reader

def text : Reader String where
  read s :=
    match skipBlanks s with
    | '"' :: rest => readText rest
    | s => .error (mismatch "a string" s)
  shorter := by
    intro s t rest h
    have hle := length_skipBlanks_le s
    split at h
    · next heq =>
        have := length_lt_of_readText h
        rw [heq, List.length_cons] at hle
        omega
    · simp at h

def null (wanted : String) : Reader Unit where
  read s :=
    match skipBlanks s with
    | 'n' :: rest => readWord ['u', 'l', 'l'] rest
    | s => .error (mismatch wanted s)
  shorter := by
    intro s t rest h
    have hle := length_skipBlanks_le s
    split at h
    · next heq =>
        have := length_le_of_readWord h
        rw [heq, List.length_cons] at hle
        omega
    · simp at h

def optionalText : Reader (Option String) where
  read s :=
    match skipBlanks s with
    | 'n' :: rest => ((null "a string").map fun _ => none).read ('n' :: rest)
    | s => (text.map some).read s
  shorter := by
    intro s t rest h
    have hle := length_skipBlanks_le s
    split at h
    · next heq =>
        have := Reader.shorter _ h
        rw [heq] at hle
        omega
    · exact Nat.lt_of_lt_of_le (Reader.shorter _ h) hle

def list {α : Type} (item : Reader α) : Reader (List α) where
  read s :=
    match skipBlanks s with
    | '[' :: rest => readItems item true rest
    | s => .error (mismatch "a sequence" s)
  shorter := by
    intro s as rest h
    have hle := length_skipBlanks_le s
    split at h
    · next heq =>
        have := length_lt_of_readItems h
        rw [heq, List.length_cons] at hle
        omega
    · simp at h

/-- The closing bracket of an object that names a word. -/
def wordEnd (s : List Char) : Reading Unit :=
  match skipBlanks s with
  | [] => .error (.before .endInObject [])
  | '\x7d' :: rest => .ok ((), rest)
  | s => .error (.before .expectedValue s)

/-- A word that has been read, after its opening quote, as one of the known words. -/
def knownWord {α : Type} (known : List String) (ofLabel? : String → Option α) (s : List Char) :
    Reading α :=
  match readText s with
  | .error fault => .error fault
  | .ok (label, rest) =>
      match ofLabel? label with
      | some a => .ok (a, rest)
      | none => .error (.before (.unknownVariant label known) rest)

/-- A word of a fixed set as the only key of an object, whose value is null. -/
def wordObject {α : Type} (known : List String) (ofLabel? : String → Option α) (s : List Char) :
    Reading α :=
  match skipBlanks s with
  | [] => .error (.before .endInObject [])
  | '"' :: rest =>
      match knownWord known ofLabel? rest with
      | .error fault => .error fault
      | .ok (a, rest) =>
          match readColon rest with
          | .error fault => .error fault
          | .ok (_, rest) =>
              match (null "unit").read rest with
              | .error fault => .error fault
              | .ok (_, rest) =>
                  match wordEnd rest with
                  | .error fault => .error fault
                  | .ok (_, rest) => .ok (a, rest)
  | '\x7d' :: rest => .error (.into .expectedValue ('\x7d' :: rest))
  | s => .error (.into .keyNotText s)

theorem length_lt_of_wordEnd {s rest : List Char} {u : Unit}
    (h : wordEnd s = .ok (u, rest)) : rest.length < s.length := by
  have hle := length_skipBlanks_le s
  unfold wordEnd at h
  grind

theorem length_lt_of_knownWord {α : Type} {known : List String} {ofLabel? : String → Option α}
    {s rest : List Char} {a : α} (h : knownWord known ofLabel? s = .ok (a, rest)) :
    rest.length < s.length := by
  unfold knownWord at h
  split at h
  · simp at h
  · next hread =>
      have := length_lt_of_readText hread
      split at h
      · simp only [Except.ok.injEq, Prod.mk.injEq] at h
        exact h.2 ▸ this
      · simp at h

theorem length_lt_of_wordObject {α : Type} {known : List String} {ofLabel? : String → Option α}
    {s rest : List Char} {a : α} (h : wordObject known ofLabel? s = .ok (a, rest)) :
    rest.length < s.length := by
  have hle := length_skipBlanks_le s
  unfold wordObject at h
  split at h
  · simp at h
  · next heq =>
      rw [heq, List.length_cons] at hle
      split at h
      · simp at h
      · next hword =>
          have := length_lt_of_knownWord hword
          split at h
          · simp at h
          · next hcolon =>
              have := length_lt_of_readColon hcolon
              split at h
              · simp at h
              · next hnull =>
                  have := Reader.shorter _ hnull
                  split at h
                  · simp at h
                  · next hend =>
                      have := length_lt_of_wordEnd hend
                      simp only [Except.ok.injEq, Prod.mk.injEq] at h
                      rw [← h.2]
                      omega
  · simp at h
  · simp at h

/-- A word of a fixed set, alone or as the only key of an object. -/
def word {α : Type} (known : List String) (ofLabel? : String → Option α) : Reader α where
  read s :=
    match skipBlanks s with
    | [] => .error (.before .endInValue [])
    | '"' :: rest => knownWord known ofLabel? rest
    | '\x7b' :: rest => wordObject known ofLabel? rest
    | s => .error (.into .expectedValue s)
  shorter := by
    intro s a rest h
    have hle := length_skipBlanks_le s
    split at h
    · simp at h
    · next heq =>
        have := length_lt_of_knownWord h
        rw [heq, List.length_cons] at hle
        omega
    · next heq =>
        have := length_lt_of_wordObject h
        rw [heq, List.length_cons] at hle
        omega
    · simp at h

/-- The value that is the whole of a text, blanks around it apart. -/
def readWhole {α : Type} (reader : Reader α) (text : String) : Except Error α :=
  match reader.read text.toList with
  | .error fault => .error (fault.locate text.toList)
  | .ok (a, rest) =>
      match skipBlanks rest with
      | [] => .ok a
      | rest => .error ((Fault.into .trailingCharacters rest).locate text.toList)

end Reader

end DesignCoupling.Json
