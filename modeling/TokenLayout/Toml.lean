/-
# TokenLayout.Toml -- reading a document of settings

A document is a sequence of statements, a line each but for strings and lists of
several lines: a value under a key, the header of a table, or the header of one
more table with the same header.  A byte order mark in front is passed over.

Lists and tables between braces nest less than eighty deep, and a key has less
than eighty parts.
-/
import TokenLayout.Toml.Scalar
import TokenLayout.Toml.Table
import TokenLayout.Toml.Text

namespace TokenLayout.Toml

set_option autoImplicit false

/-- The most parts of a key, and the most lists and tables around a value. -/
def maxDepth : Nat := 79

/-- The items of a list up to its closing bracket.  A comma may follow the last
one.  Each item uses up text, so its length is fuel enough. -/
def items? (item : List Char → Option (Value × List Char)) :
    Nat → List Char → Option (List Value × List Char)
  | 0, _ => none
  | fuel + 1, cs =>
      match skipLines false cs with
      | ']' :: rest => some ([], rest)
      | cs => do
          let (v, rest) ← item cs
          match skipLines false rest with
          | ',' :: rest =>
              let (vs, rest) ← items? item fuel rest
              return (v :: vs, rest)
          | ']' :: rest => return ([v], rest)
          | _ => none

/-- The members of a table from the next one up to the closing brace. -/
def members? (value : List Char → Option (Value × List Char)) :
    Nat → List Char → Option (List (List String × Value) × List Char)
  | 0, _ => none
  | fuel + 1, cs => do
      let (key, rest) ← key? maxDepth cs
      match rest with
      | '=' :: rest =>
          let (v, rest) ← value (skipBlank rest)
          match skipBlank rest with
          | ',' :: rest =>
              let (others, rest) ← members? value fuel rest
              return ((key, v) :: others, rest)
          | '}' :: rest => return ([(key, v)], rest)
          | _ => none
      | _ => none

/-- A value at the front of a text, with at most so many lists and tables around
one another. -/
def value? : Nat → List Char → Option (Value × List Char)
  | _, '"' :: rest => (string? '"' rest).map fun (s, rest) => (.text s, rest)
  | _, '\'' :: rest => (string? '\'' rest).map fun (s, rest) => (.text s, rest)
  | depth + 1, '[' :: rest =>
      (items? (value? depth) (rest.length + 1) rest).map fun (vs, rest) => (.list vs, rest)
  | depth + 1, '{' :: rest =>
      match skipBlank rest with
      | '}' :: rest => some (.table [], rest)
      | inner => do
          let (members, rest) ← members? (value? depth) (inner.length + 1) inner
          return (← braced members, rest)
  | _, cs => scalar? cs

/-- The statement at the front of a text that is neither blank nor a comment, and
the text after its line. -/
def statement? : List Char → Option (Statement × List Char)
  | '[' :: '[' :: cs => do
      match ← key? maxDepth cs with
      | (key, ']' :: ']' :: rest) => return (.element key, ← endLine? rest)
      | _ => none
  | '[' :: cs => do
      match ← key? maxDepth cs with
      | (key, ']' :: rest) => return (.header key, ← endLine? rest)
      | _ => none
  | cs => do
      match ← key? maxDepth cs with
      | (key, '=' :: rest) =>
          let (v, rest) ← value? maxDepth (skipBlank rest)
          return (.value key v, ← endLine? rest)
      | _ => none

/-- The statements of a text.  Each line uses up text, so its length is fuel
enough. -/
def statements? : Nat → List Char → Option (List Statement)
  | 0, _ => none
  | fuel + 1, cs =>
      match skipBlank cs with
      | [] => some []
      | c :: rest =>
          match endLine? (c :: rest) with
          | some rest => statements? fuel rest
          | none => do
              let (s, rest) ← statement? (c :: rest)
              return s :: (← statements? fuel rest)

/-- The entries of the document that a text holds. -/
def read (text : String) : Option (List (String × Value)) :=
  let cs := match text.toList with
    | '\uFEFF' :: rest => rest
    | all => all
  (statements? (cs.length + 1) cs).bind document

end TokenLayout.Toml
