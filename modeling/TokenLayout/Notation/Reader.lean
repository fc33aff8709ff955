/-
# TokenLayout.Notation.Reader -- reading a token stream from notation

An entry of the notation is one token:

* a name or a symbol is the tag of that name with its default text, or with the
  text quoted right after it;
* a word is the keyword it spells, or else an identifier;
* a number is a number, and a quoted text on its own a string, quotes included;
* flags right after an entry say how the token was synthesized.

Apart from a quoted value and flags, entries need a gap between them.  A token
is located where its entry stands; a flagged one carries no location, the way
synthesized tokens start out.

Lexemes are taken up one by one (`Progress.take`), so the first lexeme that fits
nowhere is the one reported, and a stray text only when all lexemes before it
did fit.
-/
import TokenLayout.Notation.Lexeme
import TokenLayout.Token

namespace TokenLayout.Notation

set_option autoImplicit false

/-- Why a text is not notation. -/
inductive ReadError where
  /-- The text begins no lexeme. -/
  | unexpectedText (text : String) (position : Position)
  /-- The name or symbol names no tag. -/
  | unknownTag (name : String) (position : Position)
  /-- An entry stands right after another one. -/
  | missingSeparator (text : String) (position : Position)
  /-- A flag does not stand right after an entry. -/
  | danglingSuffix (text : String) (position : Position)
  deriving DecidableEq

namespace ReadError

/-- The offending text. -/
def text : ReadError → String
  | unexpectedText text _ | unknownTag text _ | missingSeparator text _ | danglingSuffix text _ =>
      text

/-- Where the offending text starts. -/
def position : ReadError → Position
  | unexpectedText _ p | unknownTag _ p | missingSeparator _ p | danglingSuffix _ p => p

def message : ReadError → String
  | unexpectedText text p => "unexpected text '" ++ text ++ "' at " ++ p.text
  | unknownTag name p => "unknown tag '" ++ name ++ "' at " ++ p.text
  | missingSeparator text p =>
      "'" ++ text ++ "' at " ++ p.text ++ " must be separated from the previous entry by whitespace"
  | danglingSuffix text p =>
      "'" ++ text ++ "' at " ++ p.text ++ " does not follow a token it could apply to"

end ReadError

/-- Resolve the escapes of a quoted text: `\n` and `\t` are a line feed and a tab,
and a backslash before any other character stands for that character. -/
def unescape : List Char → List Char
  | '\\' :: c :: cs =>
      (if c = 'n' then '\n' else if c = 't' then '\t' else c) :: unescape cs
  | c :: cs => c :: unescape cs
  | [] => []

/-- The value a quoted lexeme stands for: its inside with the escapes resolved. -/
def quotedValue (text : List Char) : String :=
  String.ofList (unescape (text.drop 1).dropLast)

/-- The tokens read so far, last one first, and whether the last one may still
receive a quoted value. -/
structure Progress where
  tokens : Tokens
  acceptsValue : Bool

namespace Progress

def empty : Progress := ⟨[], false⟩

/-- The token a flag lexeme makes of the token it is attached to. -/
def flagged (text : List Char) (t : Token) : Token :=
  let bare := { t with location := none }
  if text = "+gen".toList then { bare with provenance := .generated }
  else if text = "+explicit".toList then { bare with provenance := .explicit }
  else { bare with fromThen := true }

/-- The token a quoted lexeme makes of the token it is attached to. -/
def valued (l : Lexeme) (t : Token) : Token :=
  { t with
    value := quotedValue l.text
    location := t.location.map fun location => { location with stop := l.stop } }

/-- The token a lexeme starts, and whether it accepts a value. -/
def started (l : Lexeme) : Except ReadError (Token × Bool) :=
  let text := String.ofList l.text
  match l.kind with
  | .name | .symbol =>
      match Tag.ofName? text with
      | some tag => .ok ((Token.bare tag).locate l.location, true)
      | none => .error (.unknownTag text l.start)
  | .word =>
      let tag := (Tag.ofKeyword? text).getD .identifier
      .ok ({ Token.bare tag with value := text, location := some l.location }, false)
  | .number =>
      .ok ({ Token.bare .number with value := text, location := some l.location }, false)
  | .quoted =>
      .ok ({ Token.bare .stringLiteral with value := text, location := some l.location }, false)
  | .flag => .error (.danglingSuffix text l.start)

/-- Take up the next lexeme. -/
def take (p : Progress) (l : Lexeme) : Except ReadError Progress :=
  match l.attached, p.tokens with
  | true, t :: earlier =>
      if l.kind = .flag then .ok ⟨flagged l.text t :: earlier, false⟩
      else if l.kind = .quoted ∧ p.acceptsValue then .ok ⟨valued l t :: earlier, false⟩
      else .error (.missingSeparator (String.ofList l.text) l.start)
  | _, tokens =>
      (started l).map fun (t, accepts) => ⟨t :: tokens, accepts⟩

end Progress

/-- The tokens of lexed text. -/
def assemble (lexed : Lexed) : Except ReadError Tokens := do
  let read ← lexed.lexemes.foldlM Progress.take Progress.empty
  match lexed.stray with
  | some stray => .error (.unexpectedText (String.ofList stray.text) stray.position)
  | none => .ok read.tokens.reverse

/-- Read a token stream from notation text. -/
def read (text : String) : Except ReadError Tokens :=
  assemble (lex text.toList)

end TokenLayout.Notation
