import DesignCoupling.Json.StringForm

/-!
# Writing JSON

What the library writes is a tree of texts, counts, lists and objects with members in order. It
has a compact text and one that is laid out in lines.
-/

namespace DesignCoupling.Json

inductive Tree where
  | text (value : String)
  | count (value : Nat)
  | list (items : List Tree)
  | object (members : List (String × Tree))

namespace Tree

/-- The comma before every item but the first. -/
def comma (isFirst : Bool) : List Char := if isFirst then [] else [',']

mutual

def compact : Tree → List Char
  | text s => encode s
  | count n => Nat.toDigits 10 n
  | list items => '[' :: compactItems true items ++ [']']
  | object members => '\x7b' :: compactMembers true members ++ ['\x7d']

def compactItems (isFirst : Bool) : List Tree → List Char
  | [] => []
  | item :: items => comma isFirst ++ item.compact ++ compactItems false items

def compactMembers (isFirst : Bool) : List (String × Tree) → List Char
  | [] => []
  | (key, value) :: members =>
      comma isFirst ++ encode key ++ ':' :: value.compact ++ compactMembers false members

end

/-- A new line, indented by two blanks for each open bracket. -/
def newLine (depth : Nat) : List Char := '\n' :: List.replicate (2 * depth) ' '

mutual

/-- The text in lines, inside `depth` open brackets. Brackets with nothing in them stay closed. -/
def lines (depth : Nat) : Tree → List Char
  | text s => encode s
  | count n => Nat.toDigits 10 n
  | list [] => ['[', ']']
  | list (item :: items) =>
      '[' :: lineItems (depth + 1) true (item :: items) ++ newLine depth ++ [']']
  | object [] => ['\x7b', '\x7d']
  | object (member :: members) =>
      '\x7b' :: lineMembers (depth + 1) true (member :: members) ++ newLine depth ++ ['\x7d']

def lineItems (depth : Nat) (isFirst : Bool) : List Tree → List Char
  | [] => []
  | item :: items =>
      comma isFirst ++ newLine depth ++ item.lines depth ++ lineItems depth false items

def lineMembers (depth : Nat) (isFirst : Bool) : List (String × Tree) → List Char
  | [] => []
  | (key, value) :: members =>
      comma isFirst ++ newLine depth ++ encode key ++ ':' :: ' ' :: value.lines depth ++
        lineMembers depth false members

end

def toText (t : Tree) : String := String.ofList t.compact

def toLines (t : Tree) : String := String.ofList (t.lines 0)

end Tree

end DesignCoupling.Json
