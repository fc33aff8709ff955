/-
# TokenLayout.Json.Record -- reading JSON text of a known shape

A reader takes text from some place on, skips blanks, and reads one value of its
type.  Where it cannot, it says why: the text is malformed, or it is JSON of
another shape.  Text is read from front to back, and the first thing that is
wrong is reported, so a value of the wrong shape hides malformed text after it.

A record is written as an object with its fields in any order, or as an array of
its fields in their own order.  In an object unknown members are passed over, no
known one may come twice, and a required one may not be missing, which shows only
at the end of the object.  In an array fields that are not required may be left
out at the end.
-/
import TokenLayout.Json.Text
import TokenLayout.Tag
import TokenLayout.Text.Quoted

namespace TokenLayout.Json

set_option autoImplicit false

/-! ## What can be wrong -/

/-- A value that was found in place of another one. -/
inductive Shape where
  | null
  | boolean (value : Bool)
  | number (value : Number)
  | string (value : String)
  | sequence
  | map

/-- Why well-formed JSON is not what it should be. -/
inductive Mismatch where
  /-- A value of another type. -/
  | wrongType (found : Shape) (expected : String)
  /-- A value of the right type outside its range. -/
  | wrongValue (found : Shape) (expected : String)
  | missingField (name : String)
  | duplicateField (name : String)
  /-- An array too short for its record. -/
  | wrongLength (length : Nat) (expected : String)
  /-- A name that is none of these. -/
  | unknownVariant (name : String) (variants : List String)
  | unknownTag (name : String)

/-- Why a text cannot be read. -/
inductive ReadError where
  | malformed
  | mismatch (reason : Mismatch)

/-- A fraction is written out as long as its point is near its digits, and always
shows that it is one: elsewhere it has an exponent with a sign. -/
def fractionLayout : Decimal.Layout where
  tie := .even
  positional point := -5 < point && point ≤ 16
  exponentSign := "+"
  wholeMark := ".0"
  infinity := "inf"
  undefined := "NaN"

namespace Shape

def text : Shape → String
  | null => "null"
  | boolean b => "boolean `" ++ (if b then "true" else "false") ++ "`"
  | number (.natural n) => "integer `" ++ toString n ++ "`"
  | number (.negative n) => "integer `-" ++ toString n ++ "`"
  | number (.fraction v) => "floating point `" ++ Decimal.write fractionLayout v ++ "`"
  | string s => "string " ++ Text.quoted s
  | sequence => "sequence"
  | map => "map"

end Shape

namespace Mismatch

def message : Mismatch → String
  | wrongType found expected => "invalid type: " ++ found.text ++ ", expected " ++ expected
  | wrongValue found expected => "invalid value: " ++ found.text ++ ", expected " ++ expected
  | missingField name => "missing field `" ++ name ++ "`"
  | duplicateField name => "duplicate field `" ++ name ++ "`"
  | wrongLength length expected => "invalid length " ++ toString length ++ ", expected " ++ expected
  | unknownVariant name variants =>
      "unknown variant `" ++ name ++ "`, expected one of " ++
        ", ".intercalate (variants.map fun v => "`" ++ v ++ "`")
  | unknownTag name => Tag.unknownMessage name

end Mismatch

/-! ## Readers -/

/-- What a reader makes of a text: a value and the text after it, or an error. -/
abbrev Outcome (α : Type) := Except ReadError (α × List Char)

/-- A reader of one value. -/
abbrev Reader (α : Type) := List Char → Outcome α

variable {α β : Type}

def malformed : Outcome α :=
  .error .malformed

def mismatch (reason : Mismatch) : Outcome α :=
  .error (.mismatch reason)

/-- What was read, or malformed text. -/
def orMalformed : Option (α × List Char) → Outcome α
  | some r => .ok r
  | none => malformed

/-- Change the value that was read. -/
def mapValue (f : α → β) (r : Outcome α) : Outcome β :=
  r.map fun p => (f p.1, p.2)

/-- The error for a text that begins with some other value than the one expected.
A value that does not go on as it begins is malformed, but what a bracket or brace
holds is not looked at. -/
def unexpected (expected : String) (cs : List Char) : Outcome α :=
  let found (shape : Shape) : Outcome α := mismatch (.wrongType shape expected)
  match cs with
  | 'n' :: 'u' :: 'l' :: 'l' :: _ => found .null
  | 't' :: 'r' :: 'u' :: 'e' :: _ => found (.boolean true)
  | 'f' :: 'a' :: 'l' :: 's' :: 'e' :: _ => found (.boolean false)
  | '"' :: rest =>
      match stringBody? rest with
      | some (inner, _) => found (.string (String.ofList inner))
      | none => malformed
  | '[' :: _ => found .sequence
  | '{' :: _ => found .map
  | '-' :: rest =>
      match number? true rest with
      | some (n, _) => found (.number n)
      | none => malformed
  | rest =>
      match number? false rest with
      | some (n, _) => found (.number n)
      | none => malformed

/-- A string, where `expected` is asked for. -/
def stringOf (expected : String) : Reader String := fun cs =>
  match skipBlank cs with
  | '"' :: rest => mapValue String.ofList (orMalformed (stringBody? rest))
  | rest => unexpected expected rest

def string : Reader String :=
  stringOf "a string"

def boolean : Reader Bool := fun cs =>
  match skipBlank cs with
  | 't' :: rest => if "rue".toList.isPrefixOf rest then .ok (true, rest.drop 3) else malformed
  | 'f' :: rest => if "alse".toList.isPrefixOf rest then .ok (false, rest.drop 4) else malformed
  | rest => unexpected "a boolean" rest

/-- `null`, given what follows its first letter. -/
def nullAfterN (value : α) (rest : List Char) : Outcome α :=
  if "ull".toList.isPrefixOf rest then .ok (value, rest.drop 3) else malformed

/-- `null` and nothing else. -/
def unit : Reader Unit := fun cs =>
  match skipBlank cs with
  | 'n' :: rest => nullAfterN () rest
  | rest => unexpected "unit" rest

/-- A whole number of 64 bits. -/
def size : Reader Nat := fun cs =>
  let expected := "usize"
  let taken : Outcome Number → Outcome Nat
    | .error e => .error e
    | .ok (.natural n, rest) => .ok (n, rest)
    | .ok (.negative n, _) => mismatch (.wrongValue (.number (.negative n)) expected)
    | .ok (.fraction v, _) => mismatch (.wrongType (.number (.fraction v)) expected)
  match skipBlank cs with
  | '-' :: rest => taken (orMalformed (number? true rest))
  | c :: rest =>
      if c.isDigit then taken (orMalformed (number? false (c :: rest)))
      else unexpected expected (c :: rest)
  | [] => malformed

/-- `null`, or a value. -/
def optional (reader : Reader α) : Reader (Option α) := fun cs =>
  match skipBlank cs with
  | 'n' :: rest => nullAfterN none rest
  | rest => mapValue some (reader rest)

/-! ## Arrays -/

/-- What comes next in an array or object: its end, with the text after that, or
one more part, with the text from that part on. -/
inductive Next where
  | done (after : List Char)
  | more (cs : List Char)
  | broken

/-- What comes next in an array. -/
def nextItem (first : Bool) (cs : List Char) : Next :=
  match skipBlank cs with
  | [] => .broken
  | ']' :: after => .done after
  | c :: rest =>
      if first then .more (c :: rest)
      else if c = ',' then
        match skipBlank rest with
        | [] => .broken
        | ']' :: _ => .broken
        | rest => .more rest
      else .broken

/-- The items of an array up to its end.  Each uses up text, so the length of the
text is fuel enough. -/
def itemsFrom (item : Reader α) : Nat → Bool → List α → Reader (List α)
  | 0, _, _, _ => malformed
  | fuel + 1, first, items, cs =>
      match nextItem first cs with
      | .done after => .ok (items.reverse, after)
      | .broken => malformed
      | .more rest =>
          match item rest with
          | .ok (value, after) => itemsFrom item fuel false (value :: items) after
          | .error e => .error e

/-- An array of values of one type. -/
def array (item : Reader α) : Reader (List α) := fun cs =>
  match skipBlank cs with
  | '[' :: rest => itemsFrom item (rest.length + 1) true [] rest
  | rest => unexpected "a sequence" rest

/-! ## Records -/

/-- A field: its name, whether it may be left out, and how to read it into a record
under construction. -/
structure Field (α : Type) where
  name : String
  required : Bool
  read : α → Reader α

/-- How records of a type are written, and what one is before any field is read. -/
structure Record (α : Type) where
  name : String
  fields : List (Field α)
  blank : α

namespace Record

def expected (r : Record α) : String :=
  "struct " ++ r.name

/-- The fields of an array, from the one with this index on. -/
def positional (r : Record α) : List (Field α) → Nat → Bool → α → Reader α
  | [], _, _, value, cs =>
      match skipBlank cs with
      | ']' :: after => .ok (value, after)
      | _ => malformed
  | f :: fs, index, first, value, cs =>
      match nextItem first cs with
      | .broken => malformed
      | .done _ =>
          if f.required then
            mismatch (.wrongLength index
              (r.expected ++ " with " ++ toString r.fields.length ++ " elements"))
          else positional r fs (index + 1) first value cs
      | .more rest =>
          match f.read value rest with
          | .ok (value, after) => positional r fs (index + 1) false value after
          | .error e => .error e

/-- What comes next in an object: its end, or a member, with the text after the
quote that opens its name. -/
def nextMember (first : Bool) (cs : List Char) : Next :=
  match skipBlank cs with
  | '}' :: after => .done after
  | '"' :: rest => if first then .more rest else .broken
  | ',' :: rest =>
      if first then .broken
      else
        match skipBlank rest with
        | '"' :: rest => .more rest
        | _ => .broken
  | _ => .broken

/-- The text after a colon. -/
def afterColon? (cs : List Char) : Option (List Char) :=
  match skipBlank cs with
  | ':' :: rest => some rest
  | _ => none

/-- The members of an object up to its end; `seen` names the fields read so far. -/
def named (r : Record α) : Nat → Bool → List String → α → Reader α
  | 0, _, _, _, _ => malformed
  | fuel + 1, first, seen, value, cs =>
      match nextMember first cs with
      | .broken => malformed
      | .done after =>
          match r.fields.find? fun f => f.required && !seen.contains f.name with
          | some f => mismatch (.missingField f.name)
          | none => .ok (value, after)
      | .more rest =>
          match stringBody? rest with
          | none => malformed
          | some (name, rest) =>
              let name := String.ofList name
              match r.fields.find? fun f => f.name == name with
              | some f =>
                  if seen.contains name then mismatch (.duplicateField name)
                  else
                    match afterColon? rest with
                    | none => malformed
                    | some rest =>
                        match f.read value rest with
                        | .ok (value, after) => named r fuel false (name :: seen) value after
                        | .error e => .error e
              | none =>
                  match (afterColon? rest).bind skipValue? with
                  | some after => named r fuel false seen value after
                  | none => malformed

/-- A record, as an object or as an array. -/
def read (r : Record α) : Reader α := fun cs =>
  match skipBlank cs with
  | '[' :: rest => r.positional r.fields 0 true r.blank rest
  | '{' :: rest => r.named (rest.length + 1) true [] r.blank rest
  | rest => unexpected r.expected rest

end Record

end TokenLayout.Json
