/-!
# Decimals of binary numbers

A binary number is named by the fewest decimal digits that read back as it, the nearest of those;
of two equally near ones the even one is taken. Values from 10^-5 up to 10^16 are written in places,
others with an exponent that shows its sign.
-/

namespace DesignCoupling.Json

/-- The nonnegative number `mantissa * 2 ^ exponent`. -/
structure Binary where
  mantissa : Nat
  exponent : Int
  deriving DecidableEq, Repr

/-- The number `digits * 10 ^ exponent`. -/
structure Decimal where
  digits : Nat
  exponent : Int
  deriving DecidableEq, Repr

structure Ratio where
  numerator : Nat
  denominator : Nat
  deriving DecidableEq, Repr

/-- `n * base ^ exponent`. -/
def Ratio.scaled (n base : Nat) (exponent : Int) : Ratio :=
  if 0 ≤ exponent then ⟨n * Nat.pow base exponent.toNat, 1⟩
  else ⟨n, Nat.pow base (-exponent).toNat⟩

/-- Order of fractions with positive denominators. -/
def Ratio.le (a b : Ratio) : Bool := a.numerator * b.denominator ≤ b.numerator * a.denominator

def Ratio.distance (a b : Ratio) : Ratio :=
  let x := a.numerator * b.denominator
  let y := b.numerator * a.denominator
  ⟨(x - y) + (y - x), a.denominator * b.denominator⟩

namespace Binary

/-- The least mantissa of a normal number: two to the 52nd. -/
def normal : Nat := 0x10000000000000

/-- The value without its sign. -/
def ofFloat (x : Float) : Binary :=
  let bits : Nat := x.toBits.toNat
  let fraction : Nat := bits % normal
  let biased : Nat := bits / normal % 0x800
  if biased = 0 then ⟨fraction, -1074⟩ else ⟨normal + fraction, (biased : Int) - 1075⟩

/-- The value in units of a quarter of its last place. -/
def quarters (b : Binary) (n : Nat) : Ratio := .scaled n 2 (b.exponent - 2)

/-- A decimal reads back as `b` when it lies between the midpoints to the neighbours of `b`. The
midpoints belong to the even one. Below a power of two the neighbour is half as far. -/
def readsBack (b : Binary) (d : Decimal) : Bool :=
  let x := Ratio.scaled d.digits 10 d.exponent
  let below := if b.mantissa = normal ∧ b.exponent > -1074 then 1 else 2
  let low := b.quarters (4 * b.mantissa - below)
  let high := b.quarters (4 * b.mantissa + 2)
  if b.mantissa % 2 = 0 then low.le x && x.le high else !x.le low && !high.le x

/-- The two neighbours of `b` among the multiples of a power of ten. -/
def neighbours (b : Binary) (exponent : Int) : List Decimal :=
  let v := Ratio.scaled b.mantissa 2 b.exponent
  let unit := Ratio.scaled 1 10 exponent
  let n := v.numerator * unit.denominator / (v.denominator * unit.numerator)
  [⟨n, exponent⟩, ⟨n + 1, exponent⟩]

def distance (b : Binary) (d : Decimal) : Ratio :=
  (Ratio.scaled b.mantissa 2 b.exponent).distance (.scaled d.digits 10 d.exponent)

/-- `d` is nearer to `b` than `e`, or as near and even. -/
def prefers (b : Binary) (d e : Decimal) : Bool :=
  let x := b.distance d
  let y := b.distance e
  x.le y && (!y.le x || d.digits % 2 == 0)

/-- The nearest multiple of a power of ten that reads back, if one does; the even one of two equally
near neighbours. -/
def onGrid? (b : Binary) (exponent : Int) : Option Decimal :=
  match (b.neighbours exponent).filter b.readsBack with
  | [] => none
  | d :: rest => some (rest.foldl (fun d e => if b.prefers d e then d else e) d)

/-- The coarsest grid of powers of ten with a decimal that reads back decides. -/
def shortest (b : Binary) : Decimal :=
  if b.mantissa = 0 then ⟨0, 0⟩
  else ((List.range 650).findSome? fun (i : Nat) => b.onGrid? (310 - (i : Int))).getD ⟨0, 0⟩

end Binary

/-- Up to this many places stand before the point. -/
def Decimal.wholePlaces : Int := 16

/-- Up to this many zeros stand after the point before the first digit. -/
def Decimal.leadingZeros : Int := 4

def signedExponent (e : Int) : List Char :=
  (if e < 0 then '-' else '+') :: Nat.toDigits 10 e.natAbs

/-- The digits with a point in their midst, or with an exponent. -/
def Decimal.layout (d : Decimal) : String :=
  let digits := Nat.toDigits 10 d.digits
  let point := (digits.length : Int) + d.exponent
  let chars : List Char :=
    if 0 ≤ d.exponent ∧ point ≤ wholePlaces then
      digits ++ List.replicate d.exponent.toNat '0' ++ ['.', '0']
    else if 0 < point ∧ point ≤ wholePlaces then
      digits.take point.toNat ++ '.' :: digits.drop point.toNat
    else if -leadingZeros ≤ point ∧ point ≤ 0 then
      '0' :: '.' :: List.replicate (-point).toNat '0' ++ digits
    else
      let tail := if digits.length = 1 then [] else '.' :: digits.drop 1
      digits.take 1 ++ tail ++ 'e' :: signedExponent (point - 1)
  String.ofList chars

def decimalText (x : Float) : String :=
  let sign := if x.toBits.toNat < 0x8000000000000000 then "" else "-"
  sign ++ (Binary.ofFloat x).shortest.layout

end DesignCoupling.Json
