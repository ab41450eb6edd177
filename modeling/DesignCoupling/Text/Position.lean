/-!
# Places in a text

A place is given by the number of bytes that stand after it. Lines are counted from one; a column
is the number of bytes since the line began.
-/

namespace DesignCoupling.Text

def byteCount : List Char → Nat
  | [] => 0
  | c :: s => c.utf8Size + byteCount s

@[simp] theorem byteCount_nil : byteCount [] = 0 := rfl

@[simp] theorem byteCount_cons (c : Char) (s : List Char) :
    byteCount (c :: s) = c.utf8Size + byteCount s := rfl

structure Position where
  line : Nat
  column : Nat
  deriving DecidableEq, Repr

namespace Position

/-- The place one character further on, or `n` bytes further when the place is inside `c`. -/
def past (p : Position) (c : Char) (n : Nat) : Position :=
  if c = '\n' then ⟨p.line + 1, 0⟩ else ⟨p.line, p.column + min n c.utf8Size⟩

/-- The place `n` bytes into a text that begins at `p`. -/
def advance (p : Position) : List Char → Nat → Position
  | [], _ => p
  | _ :: _, 0 => p
  | c :: s, n + 1 => (p.past c (n + 1)).advance s (n + 1 - c.utf8Size)

/-- The place in `text` after which `left` bytes remain. -/
def before (text : List Char) (left : Nat) : Position :=
  advance ⟨1, 0⟩ text (byteCount text - left)

end Position

end DesignCoupling.Text
