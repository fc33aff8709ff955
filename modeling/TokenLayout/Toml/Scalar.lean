/-
# TokenLayout.Toml.Scalar -- numbers, dates and truth values

A scalar without quotes is a run of letters, digits and `+ - . : _`, and all of
the run has to spell it.  Only a date and a time of day may have a blank between
them.

* A whole number is decimal, without leading zeros, or has a base mark `0x`, `0o`
  or `0b` and no sign.  It fits 64 bits.
* A fraction has a point, an exponent or both, with digits on either side of the
  point.
* An underscore may stand between two digits.
* A date and a time of day may stand alone or together.
-/
import TokenLayout.Text.Digit
import TokenLayout.Toml.Moment
import TokenLayout.Toml.Value

namespace TokenLayout.Toml

set_option autoImplicit false

open Text (fitsWord isDigitOf spelled)

/-! ## Numbers -/

/-- The digits of a run, without the underscores between them. -/
def digits? (p : Char → Bool) : List Char → Option (List Char)
  | [] => none
  | [d] => if p d then some [d] else none
  | d :: '_' :: rest => if p d then (digits? p rest).map (d :: ·) else none
  | d :: rest => if p d then (digits? p rest).map (d :: ·) else none

/-- The digits of a decimal whole number: only a zero begins with a zero. -/
def decimal? (cs : List Char) : Option (List Char) :=
  match digits? Char.isDigit cs with
  | some ('0' :: _ :: _) => none
  | found => found

/-- A sign, and what it stands before. -/
def signed (cs : List Char) : Bool × List Char :=
  match cs with
  | '-' :: rest => (true, rest)
  | '+' :: rest => (false, rest)
  | _ => (false, cs)

/-- A whole number. -/
def whole? (cs : List Char) : Option Int := do
  let based (base : Nat) (rest : List Char) : Option Int :=
    (digits? (isDigitOf base) rest).map fun ds => (spelled base ds : Int)
  let n ← match cs with
    | '0' :: 'x' :: rest => based 16 rest
    | '0' :: 'o' :: rest => based 8 rest
    | '0' :: 'b' :: rest => based 2 rest
    | _ =>
        let (negative, rest) := signed cs
        (decimal? rest).map fun ds =>
          if negative then -(spelled 10 ds : Int) else (spelled 10 ds : Int)
  if fitsWord n then some n else none

/-- What follows the first character with a property, if there is one. -/
def after? (p : Char → Bool) (cs : List Char) : Option (List Char) :=
  match cs.dropWhile fun c => !p c with
  | _ :: rest => some rest
  | [] => none

def isExponentMark (c : Char) : Bool :=
  c == 'e' || c == 'E'

/-- The exponent after its mark; without a mark it is zero. -/
def exponent? : Option (List Char) → Option Int
  | none => some 0
  | some cs =>
      let (negative, rest) := signed cs
      (digits? Char.isDigit rest).map fun ds =>
        if negative then -(spelled 10 ds : Int) else (spelled 10 ds : Int)

/-- The digits after a point; without a point there are none. -/
def fractionDigits? : Option (List Char) → Option (List Char)
  | none => some []
  | some cs => digits? Char.isDigit cs

/-- A fraction.  One that is too large above zero is refused. -/
def fraction? (cs : List Char) : Option Binary64 :=
  let (negative, rest) := signed cs
  if rest = "inf".toList then some (.infinite negative)
  else if rest = "nan".toList then some .undefined
  else do
    let exponentPart := after? isExponentMark rest
    let number := rest.takeWhile fun c => !isExponentMark c
    let pointPart := after? (· == '.') number
    if exponentPart.isNone && pointPart.isNone then none
    else
      let front ← decimal? (number.takeWhile (· != '.'))
      let back ← fractionDigits? pointPart
      let exponent ← exponent? exponentPart
      let x := Binary64.ofDecimal negative (spelled 10 (front ++ back)) (exponent - back.length)
      if x = .infinite false then none else some x

/-! ## All scalars -/

/-- May stand in a scalar without quotes. -/
def isScalarChar (c : Char) : Bool :=
  c.isAlphanum || c == '+' || c == '-' || c == '.' || c == ':' || c == '_'

/-- The scalar that a run of characters spells. -/
def spelledScalar? (run : List Char) : Option Value :=
  if run = "true".toList then some (.boolean true)
  else if run = "false".toList then some (.boolean false)
  else
    ((Moment.read? run).map Value.moment).orElse fun _ =>
      ((whole? run).map Value.integer).orElse fun _ => (fraction? run).map Value.fraction

/-- A scalar without quotes at the front of a text. -/
def scalar? (cs : List Char) : Option (Value × List Char) :=
  let run := cs.takeWhile isScalarChar
  let rest := cs.dropWhile isScalarChar
  match Moment.date? run, rest with
  | some [], ' ' :: d :: more =>
      if d.isDigit then
        let time := (d :: more).takeWhile isScalarChar
        (Moment.read? (run ++ ' ' :: time)).map fun m =>
          (.moment m, (d :: more).dropWhile isScalarChar)
      else (spelledScalar? run).map (·, rest)
  | _, _ => (spelledScalar? run).map (·, rest)

end TokenLayout.Toml
