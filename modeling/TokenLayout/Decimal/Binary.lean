/-
# TokenLayout.Decimal.Binary -- binary fractions of 64 bits, exactly

A finite value is `mantissa * 2 ^ exponent` in the one representation with a
mantissa below `2 ^ 53` and an exponent of at least `-1074` in which the mantissa
reaches `2 ^ 52` or the exponent is `-1074`.  All arithmetic is exact arithmetic
on naturals followed by one rounding of a quotient, to nearest and on a tie to
the even mantissa.
-/
namespace TokenLayout

set_option autoImplicit false

/-- A binary fraction of 64 bits. -/
inductive Binary64 where
  | finite (negative : Bool) (mantissa : Nat) (exponent : Int)
  | infinite (negative : Bool)
  | undefined
  deriving DecidableEq

/-- A quotient of naturals, the second one positive. -/
structure Ratio where
  num : Nat
  den : Nat

namespace Ratio

/-- `n * 2 ^ e` as a quotient. -/
def scaled (n : Nat) (e : Int) : Ratio :=
  match e with
  | .ofNat k => ⟨n * Nat.pow 2 k, 1⟩
  | .negSucc k => ⟨n, Nat.pow 2 (k + 1)⟩

/-- `n * 10 ^ e` as a quotient. -/
def decimal (n : Nat) (e : Int) : Ratio :=
  match e with
  | .ofNat k => ⟨n * Nat.pow 10 k, 1⟩
  | .negSucc k => ⟨n, Nat.pow 10 (k + 1)⟩

def mul (a b : Ratio) : Ratio := ⟨a.num * b.num, a.den * b.den⟩

def div (a b : Ratio) : Ratio := ⟨a.num * b.den, a.den * b.num⟩

def lt (a b : Ratio) : Bool := a.num * b.den < b.num * a.den

def le (a b : Ratio) : Bool := a.num * b.den ≤ b.num * a.den

/-- The largest `e` with `2 ^ e` at most the quotient, which is not zero. -/
def log2 (r : Ratio) : Int :=
  let e : Int := (r.num.log2 : Int) - r.den.log2
  if (scaled 1 e).le r then e else e - 1

/-- The nearest natural; of two equally near ones, the even one. -/
def round (r : Ratio) : Nat :=
  let whole := r.num / r.den
  let twice := 2 * (r.num % r.den)
  if twice < r.den then whole
  else if r.den < twice then whole + 1
  else if whole % 2 = 0 then whole else whole + 1

end Ratio

namespace Binary64

def zero (negative : Bool) : Binary64 := finite negative 0 (-1074)

/-- A quotient rounded to a binary fraction of the given sign. -/
def ofRatio (negative : Bool) (r : Ratio) : Binary64 :=
  if r.num = 0 then zero negative
  else
    let e := max (r.log2 - 52) (-1074)
    let m := (r.div (Ratio.scaled 1 e)).round
    let (m, e) := if m = Nat.pow 2 53 then (Nat.pow 2 52, e + 1) else (m, e)
    if 971 < e then infinite negative else finite negative m e

/-- A decimal `digits * 10 ^ exponent` rounded to a binary fraction.  Outside the
range of exponents at which the answer can be finite and not zero the power of
ten is not worked out. -/
def ofDecimal (negative : Bool) (digits : Nat) (exponent : Int) : Binary64 :=
  let magnitude := exponent + (Nat.toDigits 10 digits).length
  if digits = 0 ∨ magnitude < -400 then zero negative
  else if 400 < magnitude then infinite negative
  else ofRatio negative (Ratio.decimal digits exponent)

/-- The size of a finite value; other values have none. -/
def magnitude : Binary64 → Ratio
  | finite _ m e => Ratio.scaled m e
  | _ => ⟨0, 1⟩

def isZero : Binary64 → Bool
  | finite _ m _ => m == 0
  | _ => false

def negate : Binary64 → Binary64
  | finite negative m e => finite (!negative) m e
  | infinite negative => infinite (!negative)
  | undefined => undefined

end Binary64

end TokenLayout
