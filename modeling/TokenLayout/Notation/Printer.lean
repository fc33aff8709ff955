/-
# TokenLayout.Notation.Printer -- writing a token stream

Two written forms.  The notation holds tag, value, provenance and the mark of a
`then` block, and reads back as such (`TokenLayout.Notation.Reader`).  The tag
line holds the tags alone, with locations on request.

A token is written as shortly as it reads back: its bare value if that alone
gives the same tag, else its tag's name if the value is the default text, else
the name with the value quoted.
-/
import TokenLayout.Notation.Reader

namespace TokenLayout.Notation

set_option autoImplicit false

/-- A text that reads as one word. -/
def isWord : List Char → Bool
  | c :: cs => isWordStart c && cs.all isWordChar
  | [] => false

/-- A text that reads as one number. -/
def isNumber (cs : List Char) : Bool :=
  let digits (part : List Char) : Bool := !part.isEmpty && part.all Char.isDigit
  match cs.dropWhile (· != '.') with
  | [] => digits cs
  | _ :: fraction => digits (cs.takeWhile (· != '.')) && digits fraction

/-- A text that reads as one string: quotes around an inside that needs no escapes. -/
def isPlainString : List Char → Bool
  | '"' :: cs =>
      cs.getLast? == some '"' &&
        cs.dropLast.all fun c => c != '"' && c != '\\' && c != '\n'
  | _ => false

/-- Whether a token's value alone reads back as a token of the same tag. -/
def readsBare (t : Token) : Bool :=
  let value := t.value.toList
  match t.tag with
  | .identifier => isWord value && (Tag.ofKeyword? t.value).isNone
  | .number => isNumber value
  | .stringLiteral => isPlainString value
  | tag => isWord value && Tag.ofKeyword? t.value == some tag

/-- The escapes of a quoted text. -/
def escape : List Char → List Char
  | [] => []
  | c :: cs =>
      (if c = '"' then ['\\', '"']
       else if c = '\\' then ['\\', '\\']
       else if c = '\n' then ['\\', 'n']
       else if c = '\t' then ['\\', 't']
       else [c]) ++ escape cs

/-- Tag and value of a token, without its flags. -/
def entryBody (t : Token) : String :=
  if readsBare t then t.value
  else if t.value = t.tag.defaultText then t.tag.name
  else t.tag.name ++ "\"" ++ String.ofList (escape t.value.toList) ++ "\""

/-- The flags of a token. -/
def entryFlags (t : Token) : String :=
  (match t.provenance with
   | .source => ""
   | .generated => "+gen"
   | .explicit => "+explicit") ++
  (if t.fromThen then "+then" else "")

/-- The notation entry of a token. -/
def entry (t : Token) : String :=
  entryBody t ++ entryFlags t

/-- A token stream in notation. -/
def write (tokens : Tokens) : String :=
  " ".intercalate (tokens.map entry)

/-- What reading back written notation gives: the same stream as far as the
notation goes, the entries of another one, or an error. -/
inductive ReadBack where
  | same
  | other (entries : List String)
  | unreadable (error : ReadError)

/-- Write a stream and read it back. -/
def readBack (tokens : Tokens) : ReadBack :=
  match read (write tokens) with
  | .error e => .unreadable e
  | .ok back =>
      if back.length == tokens.length && (back.zip tokens).all fun p => p.1.sameEntry p.2 then .same
      else .other (back.map entry)

/-- The tags of a stream, each with its token's location on request; `?` stands
for a location that is absent. -/
def tagLine (showLocations : Bool) (tokens : Tokens) : String :=
  " ".intercalate <| tokens.map fun t =>
    if showLocations then
      t.tag.name ++ "@" ++ (match t.location with
        | some location => location.text
        | none => "?")
    else t.tag.name

end TokenLayout.Notation
