/-
# TokenLayout.Json.Text -- the pieces of JSON text

Blanks, strings and numbers.  A reader takes the text from some place on and
returns what it read with the text after it, or `none` where the text is not
JSON.

A string holds no control characters.  An escape in it stands for one character,
and two escapes of a surrogate pair together stand for one; a surrogate on its
own stands for none, so it is refused, except in a string that is only passed
over.

A whole number below `2 ^ 64` is exact.  Longer ones, and those with a fraction or
an exponent, are binary fractions.  They are worked out the quick way: as many
leading digits as fit below `2 ^ 64`, times or divided by a rounded power of ten,
so the last bit is not always the nearest.  What is too large is refused.
-/
import TokenLayout.Decimal.Shortest
import TokenLayout.Text.Digit

namespace TokenLayout.Json

set_option autoImplicit false

open Text (hexDigit? spelled)

/-! ## Blanks -/

/-- A blank of JSON: space, tab, carriage return or line feed. -/
def isBlank (c : Char) : Bool :=
  c == ' ' || c == '\n' || c == '\t' || c == '\r'

def skipBlank (cs : List Char) : List Char :=
  cs.dropWhile isBlank

/-! ## Strings -/

/-- The number that four hexadecimal digits spell, and the text after them. -/
def hex4? : List Char → Option (Nat × List Char)
  | a :: b :: c :: d :: rest => do
      let a ← hexDigit? a
      let b ← hexDigit? b
      let c ← hexDigit? c
      let d ← hexDigit? d
      return (((a * 16 + b) * 16 + c) * 16 + d, rest)
  | _ => none

def isHighSurrogate (n : Nat) : Bool := 0xD800 ≤ n && n < 0xDC00

def isLowSurrogate (n : Nat) : Bool := 0xDC00 ≤ n && n < 0xE000

/-- The character of a numeric escape, given what follows its `\u`. -/
def numericEscape? (cs : List Char) : Option (Char × List Char) :=
  match hex4? cs with
  | none => none
  | some (n, rest) =>
      if isLowSurrogate n then none
      else if isHighSurrogate n then
        match rest with
        | '\\' :: 'u' :: more =>
            match hex4? more with
            | some (m, rest) =>
                if isLowSurrogate m then
                  some (Char.ofNat (0x10000 + (n - 0xD800) * 0x400 + (m - 0xDC00)), rest)
                else none
            | none => none
        | _ => none
      else some (Char.ofNat n, rest)

/-- The character that a backslash and this one stand for. -/
def simpleEscape? : Char → Option Char
  | '"' => some '"'
  | '\\' => some '\\'
  | '/' => some '/'
  | 'b' => some '\x08'
  | 'f' => some '\x0c'
  | 'n' => some '\n'
  | 'r' => some '\r'
  | 't' => some '\t'
  | _ => none

/-- The first character of the inside of a string, and the text after it. -/
def stringChar? : List Char → Option (Char × List Char)
  | '\\' :: 'u' :: rest => numericEscape? rest
  | '\\' :: e :: rest => (simpleEscape? e).map (·, rest)
  | '\\' :: [] => none
  | c :: rest => if c.toNat < 0x20 then none else some (c, rest)
  | [] => none

theorem hex4?_length {cs rest : List Char} {n : Nat} (h : hex4? cs = some (n, rest)) :
    rest.length < cs.length := by
  unfold hex4? at h
  split at h
  · simp only [bind, Option.bind_eq_some_iff, pure, Option.some.injEq, Prod.mk.injEq] at h
    obtain ⟨_, _, _, _, _, _, _, _, _, rfl⟩ := h
    simp only [List.length_cons]
    omega
  · cases h

theorem numericEscape?_length {cs rest : List Char} {c : Char}
    (h : numericEscape? cs = some (c, rest)) : rest.length < cs.length := by
  unfold numericEscape? at h
  split at h
  · cases h
  · rename_i n after first
    have shorter := hex4?_length first
    split at h
    · cases h
    split at h
    · split at h
      · rename_i more
        split at h
        · rename_i m rest' second
          have shorter' := hex4?_length second
          simp only [List.length_cons] at shorter
          split at h
          · simp only [Option.some.injEq, Prod.mk.injEq] at h
            obtain ⟨_, rfl⟩ := h
            omega
          · cases h
        · cases h
      · cases h
    · simp only [Option.some.injEq, Prod.mk.injEq] at h
      obtain ⟨_, rfl⟩ := h
      exact shorter

/-- A character of a string uses up text. -/
theorem stringChar?_length {cs rest : List Char} {c : Char}
    (h : stringChar? cs = some (c, rest)) : rest.length < cs.length := by
  unfold stringChar? at h
  split at h
  · have := numericEscape?_length h
    simp only [List.length_cons]
    omega
  · simp only [Option.map_eq_some_iff, Prod.mk.injEq] at h
    obtain ⟨_, _, _, rfl⟩ := h
    simp only [List.length_cons]
    omega
  · cases h
  · split at h
    · cases h
    · simp only [Option.some.injEq, Prod.mk.injEq] at h
      obtain ⟨_, rfl⟩ := h
      simp only [List.length_cons]
      omega
  · cases h

/-- The inside of a string and the text after its closing quote, given what
follows its opening quote. -/
def stringBody? (cs : List Char) : Option (List Char × List Char) :=
  if cs.head? = some '"' then some ([], cs.tail)
  else
    match _h : stringChar? cs with
    | none => none
    | some (c, rest) =>
        match stringBody? rest with
        | some (inner, after) => some (c :: inner, after)
        | none => none
  termination_by cs.length
  decreasing_by exact stringChar?_length _h

/-- The text after the closing quote of a string that is only passed over. -/
def skipString? : List Char → Option (List Char)
  | [] => none
  | '"' :: rest => some rest
  | '\\' :: 'u' :: a :: b :: c :: d :: rest =>
      if [a, b, c, d].all fun x => (hexDigit? x).isSome then skipString? rest else none
  | '\\' :: e :: rest => if (simpleEscape? e).isSome then skipString? rest else none
  | c :: rest => if c.toNat < 0x20 then none else skipString? rest

/-- The escapes of a string: those with a letter where there is one, and a numeric
one for every other control character. -/
def escapeChar (c : Char) : List Char :=
  if c = '"' then ['\\', '"']
  else if c = '\\' then ['\\', '\\']
  else if c = '\x08' then ['\\', 'b']
  else if c = '\x0c' then ['\\', 'f']
  else if c = '\n' then ['\\', 'n']
  else if c = '\r' then ['\\', 'r']
  else if c = '\t' then ['\\', 't']
  else if c.toNat < 0x20 then
    ['\\', 'u', '0', '0', Nat.digitChar (c.toNat / 16), Nat.digitChar (c.toNat % 16)]
  else [c]

/-- A string in quotes. -/
def writeString (cs : List Char) : List Char :=
  '"' :: cs.flatMap escapeChar ++ ['"']

/-! ## Numbers -/

/-- A number as it is written. -/
inductive Number where
  /-- A whole number below `2 ^ 64`. -/
  | natural (n : Nat)
  /-- A whole number below zero and not below `-2 ^ 63`, without its sign. -/
  | negative (n : Nat)
  /-- Any other number. -/
  | fraction (value : Binary64)
  deriving DecidableEq

/-- The digits at the front of a text. -/
def digits (cs : List Char) : List Char :=
  cs.takeWhile Char.isDigit

/-- The text after the digits at its front. -/
def afterDigits (cs : List Char) : List Char :=
  cs.dropWhile Char.isDigit

/-- Append digits to a number as long as it stays below `2 ^ 64`; the digits left
over are those from the first that does not fit. -/
def gather (n : Nat) : List Char → Nat × List Char
  | [] => (n, [])
  | d :: ds =>
      let more := 10 * n + (d.toNat - '0'.toNat)
      if more < Nat.pow 2 64 then gather more ds else (n, d :: ds)

/-- A power of ten as a binary fraction. -/
def powerOfTen (n : Nat) : Ratio :=
  (Binary64.ofRatio false ⟨Nat.pow 10 n, 1⟩).magnitude

/-- Divide by `10 ^ 308` until the exponent is within the powers that are finite.
Three rounds suffice: by then the value is zero. -/
def scaleDown : Nat → Binary64 → Int → Binary64 × Int
  | 0, value, exponent => (value, exponent)
  | rounds + 1, value, exponent =>
      if exponent < -308 && !value.isZero then
        scaleDown rounds (Binary64.ofRatio false (value.magnitude.div (powerOfTen 308)))
          (exponent + 308)
      else (value, exponent)

/-- `n * 10 ^ exponent` with the given sign, unless it is too large. -/
def scale? (negative : Bool) (n : Nat) (exponent : Int) : Option Binary64 :=
  let (value, exponent) := scaleDown 3 (Binary64.ofRatio false ⟨n, 1⟩) exponent
  let signed (v : Binary64) : Binary64 := if negative then v.negate else v
  if exponent < -308 then some (signed value)
  else if exponent < 0 then
    some (signed (Binary64.ofRatio false (value.magnitude.div (powerOfTen exponent.natAbs))))
  else if value.isZero then some (signed value)
  else if 308 < exponent then none
  else
    match Binary64.ofRatio false (value.magnitude.mul (powerOfTen exponent.natAbs)) with
    | .infinite _ => none
    | scaled => some (signed scaled)

/-- Finish a number with an exponent, given what follows the `e`. -/
def exponentPart? (negative : Bool) (n : Nat) (exponent : Int) (cs : List Char) :
    Option (Number × List Char) :=
  let (down, ds) := match cs with
    | '+' :: rest => (false, rest)
    | '-' :: rest => (true, rest)
    | _ => (false, cs)
  if (digits ds).isEmpty then none
  else
    let e := spelled 10 (digits ds)
    let value? :=
      if Nat.pow 2 31 ≤ e then
        if n ≠ 0 ∧ !down then none else some (Binary64.zero negative)
      else scale? negative n (if down then exponent - e else exponent + e)
    value?.map fun v => (.fraction v, afterDigits ds)

/-- Finish a number after its whole part or its fraction: an exponent may follow. -/
def mayHaveExponent? (negative : Bool) (n : Nat) (exponent : Int) :
    List Char → Option (Number × List Char)
  | 'e' :: rest => exponentPart? negative n exponent rest
  | 'E' :: rest => exponentPart? negative n exponent rest
  | rest => (scale? negative n exponent).map fun v => (.fraction v, rest)

/-- A whole number with its sign. -/
def whole (negative : Bool) (n : Nat) : Number :=
  if !negative then .natural n
  else if n = 0 ∨ Nat.pow 2 63 < n then .fraction ((Binary64.ofRatio false ⟨n, 1⟩).negate)
  else .negative n

/-- Finish a number after its whole part: `n` and as many digits left over as
`exponent` says. -/
def afterWhole? (negative : Bool) (n : Nat) (exponent : Nat) :
    List Char → Option (Number × List Char)
  | '.' :: rest =>
      if (digits rest).isEmpty then none
      else
        let (more, left) := gather n (digits rest)
        let taken : Int := ((digits rest).length : Int) - left.length
        mayHaveExponent? negative more (exponent - taken) (afterDigits rest)
  | 'e' :: rest => exponentPart? negative n exponent rest
  | 'E' :: rest => exponentPart? negative n exponent rest
  | rest =>
      if exponent = 0 then some (whole negative n, rest)
      else (scale? negative n exponent).map fun v => (.fraction v, rest)

/-- A number at the front of a text, after its sign.  Only a zero begins with a
zero. -/
def number? (negative : Bool) (cs : List Char) : Option (Number × List Char) :=
  match digits cs with
  | [] => none
  | '0' :: _ :: _ => none
  | ds =>
      let (n, left) := gather 0 ds
      afterWhole? negative n left.length (afterDigits cs)

/-- Pass over an exponent, given what follows the `e`. -/
def skipExponent? (cs : List Char) : Option (List Char) :=
  let ds := match cs with
    | '+' :: rest => rest
    | '-' :: rest => rest
    | _ => cs
  if (digits ds).isEmpty then none else some (afterDigits ds)

/-- Pass over an exponent, if there is one. -/
def maySkipExponent? : List Char → Option (List Char)
  | 'e' :: rest => skipExponent? rest
  | 'E' :: rest => skipExponent? rest
  | rest => some rest

/-- Pass over a number after its sign, whatever its size. -/
def skipNumber? (cs : List Char) : Option (List Char) :=
  match digits cs with
  | [] => none
  | '0' :: _ :: _ => none
  | _ =>
      match afterDigits cs with
      | '.' :: rest =>
          if (digits rest).isEmpty then none else maySkipExponent? (afterDigits rest)
      | rest => maySkipExponent? rest

/-! ## Values that are only passed over -/

/-- What is open around a value. -/
inductive Frame where
  | array
  | object

/-- Pass over the name of a member and its colon, given what follows the opening
quote of the name. -/
def skipName? (cs : List Char) : Option (List Char) := do
  match skipBlank (← skipString? cs) with
  | ':' :: rest => some rest
  | _ => none

/-- Pass over values until nothing is open: `value` says that a value must come
next, and not what follows one.  Each step uses up text, so its length is fuel
enough. -/
def skipOn? : Nat → Bool → List Frame → List Char → Option (List Char)
  | 0, _, _, _ => none
  | _ + 1, false, [], cs => some cs
  | fuel + 1, true, frames, cs =>
      match skipBlank cs with
      | 'n' :: 'u' :: 'l' :: 'l' :: rest => skipOn? fuel false frames rest
      | 't' :: 'r' :: 'u' :: 'e' :: rest => skipOn? fuel false frames rest
      | 'f' :: 'a' :: 'l' :: 's' :: 'e' :: rest => skipOn? fuel false frames rest
      | '"' :: rest => (skipString? rest).bind (skipOn? fuel false frames)
      | '-' :: rest => (skipNumber? rest).bind (skipOn? fuel false frames)
      | '[' :: rest =>
          match skipBlank rest with
          | ']' :: rest => skipOn? fuel false frames rest
          | rest => skipOn? fuel true (.array :: frames) rest
      | '{' :: rest =>
          match skipBlank rest with
          | '}' :: rest => skipOn? fuel false frames rest
          | '"' :: rest => (skipName? rest).bind (skipOn? fuel true (.object :: frames))
          | _ => none
      | rest => (skipNumber? rest).bind (skipOn? fuel false frames)
  | fuel + 1, false, .array :: frames, cs =>
      match skipBlank cs with
      | ',' :: rest => skipOn? fuel true (.array :: frames) rest
      | ']' :: rest => skipOn? fuel false frames rest
      | _ => none
  | fuel + 1, false, .object :: frames, cs =>
      match skipBlank cs with
      | ',' :: rest =>
          match skipBlank rest with
          | '"' :: rest => (skipName? rest).bind (skipOn? fuel true (.object :: frames))
          | _ => none
      | '}' :: rest => skipOn? fuel false frames rest
      | _ => none

/-- Pass over one value of any kind. -/
def skipValue? (cs : List Char) : Option (List Char) :=
  skipOn? (cs.length + 2) true [] cs

end TokenLayout.Json
