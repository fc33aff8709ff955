/-
# TokenLayout.Toml.Moment -- dates and times

A date and a time of day may stand alone; both together may have an offset, and a
letter `T` or a blank stands between them.  They are read as the text that writes
them in full: with a capital `T` and `Z`, with at most nine digits of a fraction of
a second and no zeros at their end, and with a plus before an offset of nothing.

Days have the hours 0 to 23 and hours the minutes 0 to 59, in an offset too.  A
minute may have a second 60, as one with a leap second does.
-/
import TokenLayout.Text.Digit

namespace TokenLayout.Toml.Moment

set_option autoImplicit false

open Text (spelled)

/-- The number of two digits within bounds, and the text after them. -/
def pair? (low high : Nat) : List Char → Option (Nat × List Char)
  | a :: b :: rest =>
      let n := spelled 10 [a, b]
      if a.isDigit && b.isDigit && low ≤ n && n ≤ high then some (n, rest) else none
  | _ => none

/-- The days of a month. -/
def monthDays (year month : Nat) : Nat :=
  if month = 2 then
    if year % 4 = 0 ∧ (year % 100 ≠ 0 ∨ year % 400 = 0) then 29 else 28
  else if month = 4 ∨ month = 6 ∨ month = 9 ∨ month = 11 then 30
  else 31

/-- A mark at the front of a text, and the text after it. -/
def mark? (c : Char) : List Char → Option (List Char)
  | d :: rest => if d = c then some rest else none
  | [] => none

/-- The text after a date. -/
def date? (cs : List Char) : Option (List Char) := do
  let year := cs.take 4
  if year.length = 4 ∧ year.all Char.isDigit then
    let (month, rest) ← pair? 1 12 (← mark? '-' (cs.drop 4))
    let (_, rest) ← pair? 1 (monthDays (spelled 10 year) month) (← mark? '-' rest)
    return rest
  else none

/-- The text after the hours, minutes and seconds of a time of day. -/
def clock? (cs : List Char) : Option (List Char) := do
  let (_, rest) ← pair? 0 23 cs
  let (_, rest) ← pair? 0 59 (← mark? ':' rest)
  let (_, rest) ← pair? 0 60 (← mark? ':' rest)
  return rest

/-- Fractions of a second as they are written in full: nine digits are kept, and
no zeros at their end. -/
def secondsText (ds : List Char) : List Char :=
  match ((ds.take 9).reverse.dropWhile (· == '0')).reverse with
  | [] => []
  | kept => '.' :: kept

/-- A time of day in full, and the text after it. -/
def time? (cs : List Char) : Option (List Char × List Char) := do
  let rest ← clock? cs
  let shown := cs.take 8
  match rest with
  | '.' :: more =>
      let ds := more.takeWhile Char.isDigit
      if ds.isEmpty then none
      else return (shown ++ secondsText ds, more.dropWhile Char.isDigit)
  | _ => return (shown, rest)

/-- An offset in full: nothing, a `Z`, or hours and minutes. -/
def offset? : List Char → Option (List Char)
  | [] => some []
  | [c] => if c = 'Z' ∨ c = 'z' then some ['Z'] else none
  | sign :: cs => do
      let (hours, rest) ← pair? 0 23 cs
      let (minutes, rest) ← pair? 0 59 (← mark? ':' rest)
      if (sign = '+' ∨ sign = '-') ∧ rest.isEmpty then
        return (if hours = 0 ∧ minutes = 0 then '+' else sign) :: cs
      else none

/-- May stand between a date and a time of day. -/
def isJoint (c : Char) : Bool :=
  c == 'T' || c == 't' || c == ' '

/-- A date, a time of day, or both, in full. -/
def read? (cs : List Char) : Option String :=
  match date? cs with
  | some [] => some (String.ofList cs)
  | some (c :: rest) =>
      if isJoint c then do
        let (time, rest) ← time? rest
        return String.ofList (cs.take 10 ++ 'T' :: time ++ (← offset? rest))
      else none
  | none =>
      match time? cs with
      | some (time, []) => some (String.ofList time)
      | _ => none

end TokenLayout.Toml.Moment
