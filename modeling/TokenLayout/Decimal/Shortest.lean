/-
# TokenLayout.Decimal.Shortest -- the fewest digits that read back

A binary fraction is written with the fewest decimal digits that still round to
it, and among those with the digits nearest to it.  Of two equally near ones a
layout chooses.  The decimals that round to `m * 2 ^ e` lie between the middles to
its two neighbours, the middles included exactly if `m` is even.  For one digit,
two digits and so on the two points of that decimal grid around the value are
tried; seventeen digits always suffice.
-/
import TokenLayout.Decimal.Binary

namespace TokenLayout.Decimal

set_option autoImplicit false

/-- Decimal digits and the place of the point: the value is
`0.digits * 10 ^ point`.  The digits do not end in zero. -/
structure Digits where
  digits : List Char
  point : Int
  deriving DecidableEq

/-- The values that round to a binary fraction: between the bounds, or on one of
them if it is closed. -/
structure Interval where
  low : Ratio
  high : Ratio
  closed : Bool

namespace Interval

/-- The interval of `m * 2 ^ e`.  The neighbour below a power of two is only half
as far away, except where the exponent cannot become smaller. -/
def around (m : Nat) (e : Int) : Interval :=
  let gap := if m = Nat.pow 2 52 ∧ -1074 < e then 1 else 2
  ⟨Ratio.scaled (4 * m - gap) (e - 2), Ratio.scaled (4 * m + 2) (e - 2), m % 2 = 0⟩

def contains (i : Interval) (r : Ratio) : Bool :=
  if i.closed then i.low.le r && r.le i.high else i.low.lt r && r.lt i.high

end Interval

/-- The number of decimal digits. -/
def width (n : Nat) : Nat :=
  (Nat.toDigits 10 n).length

/-- The place of the point of a quotient that is not zero: the least `p` with the
quotient below `10 ^ p`. -/
def pointOf (r : Ratio) : Int :=
  if r.den ≤ r.num then width (r.num / r.den)
  else 1 - width ((r.den + r.num - 1) / r.num - 1)

/-- Drop the zeros at the end of the digits of `n`. -/
def digitsOf (n : Nat) : List Char :=
  ((Nat.toDigits 10 n).reverse.dropWhile (· == '0')).reverse

/-- Which of two equally near decimals is written. -/
inductive Tie where
  /-- The one whose last digit is even. -/
  | even
  /-- The one farther from zero. -/
  | away
  deriving DecidableEq

/-- The nearest natural; of two equally near ones, the one a tie goes to. -/
def Tie.round (tie : Tie) (r : Ratio) : Nat :=
  match tie with
  | .even => r.round
  | .away => (2 * r.num + r.den) / (2 * r.den)

/-- The point of the grid of `10 ^ k` nearest to `v` within the interval, if any. -/
def nearest? (tie : Tie) (i : Interval) (v : Ratio) (k : Int) : Option Nat :=
  let steps := v.div (Ratio.decimal 1 k)
  let below := steps.num / steps.den
  let hits (n : Nat) : Bool := i.contains (Ratio.decimal n k)
  match hits below, hits (below + 1) with
  | true, true => some (tie.round steps)
  | true, false => some below
  | false, true => some (below + 1)
  | false, false => none

/-- Try grids of more and more digits, from `n` on. -/
def search (tie : Tie) (i : Interval) (v : Ratio) (point : Int) : Nat → Nat → Digits
  | 0, _ => ⟨['0'], 1⟩
  | fuel + 1, n =>
      let k := point - n
      match nearest? tie i v k with
      | some c => ⟨digitsOf c, width c + k⟩
      | none => search tie i v point fuel (n + 1)

/-- The digits of `m * 2 ^ e`, which is not zero. -/
def shortest (tie : Tie) (m : Nat) (e : Int) : Digits :=
  let v := Ratio.scaled m e
  search tie (Interval.around m e) v (pointOf v) 17 1

/-- How a binary fraction is laid out. -/
structure Layout where
  tie : Tie
  /-- The places of the point at which digits are written out in full; elsewhere
  they are written with an exponent. -/
  positional : Int → Bool
  /-- What stands before an exponent that is not below zero. -/
  exponentSign : String
  /-- What follows a whole number. -/
  wholeMark : String
  /-- An infinity without its sign. -/
  infinity : String
  /-- What is neither finite nor infinite. -/
  undefined : String

/-- `n` zeros. -/
def zeros (n : Nat) : String :=
  String.ofList (List.replicate n '0')

/-- Digits with a point among them, before them or after them. -/
def positional (layout : Layout) (d : Digits) : String :=
  let n : Int := d.digits.length
  if d.point ≤ 0 then "0." ++ zeros (-d.point).toNat ++ String.ofList d.digits
  else if n ≤ d.point then
    String.ofList d.digits ++ zeros (d.point - n).toNat ++ layout.wholeMark
  else
    String.ofList (d.digits.take d.point.toNat) ++ "." ++
      String.ofList (d.digits.drop d.point.toNat)

/-- One digit, the others after a point, and the exponent. -/
def scientific (layout : Layout) (d : Digits) : String :=
  let first := String.ofList (d.digits.take 1)
  let others := d.digits.drop 1
  let exponent := d.point - 1
  first ++ (if others.isEmpty then "" else "." ++ String.ofList others) ++ "e" ++
    (if exponent < 0 then "" else layout.exponentSign) ++ toString exponent

/-- Write a binary fraction. -/
def write (layout : Layout) : Binary64 → String
  | .finite negative m e =>
      (if negative then "-" else "") ++
        (if m = 0 then "0" ++ layout.wholeMark
         else
          let d := shortest layout.tie m e
          if layout.positional d.point then positional layout d else scientific layout d)
  | .infinite negative => (if negative then "-" else "") ++ layout.infinity
  | .undefined => layout.undefined

end TokenLayout.Decimal
