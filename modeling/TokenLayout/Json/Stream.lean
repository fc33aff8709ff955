/-
# TokenLayout.Json.Stream -- a token stream as JSON

A stream is an array of tokens, a token an object with its fields in the order
`tag`, `value`, `location`, `provenance`, `origin`, `from_then`.  The first three
are always written; the others, and the location of an origin, only when they say
something.  A token must be read with a tag; a field left out has the value of a
source token without text, location or cause.

Written text is laid out with two blanks per level, one member or item per line.
-/
import TokenLayout.Json.Record
import TokenLayout.Token

namespace TokenLayout.Json

set_option autoImplicit false

/-! ## Reading -/

/-- A tag, by its canonical name. -/
def tag : Reader Tag := fun cs =>
  match string cs with
  | .error e => .error e
  | .ok (name, rest) =>
      match Tag.ofName? name with
      | some t => .ok (t, rest)
      | none => mismatch (.unknownTag name)

/-- The provenance of a given name. -/
def provenanceNamed (named : Outcome String) : Outcome Provenance :=
  match named with
  | .error e => .error e
  | .ok (name, rest) =>
      match Provenance.ofName? name with
      | some p => .ok (p, rest)
      | none => mismatch (.unknownVariant name (Provenance.all.map Provenance.name))

/-- A provenance: its name, or an object with `null` under that name. -/
def provenance : Reader Provenance := fun cs =>
  match skipBlank cs with
  | '"' :: rest => provenanceNamed (string ('"' :: rest))
  | '{' :: rest =>
      match provenanceNamed (stringOf "variant identifier" rest) with
      | .error e => .error e
      | .ok (p, rest) =>
          match Record.afterColon? rest with
          | none => malformed
          | some rest =>
              match unit rest with
              | .error e => .error e
              | .ok ((), rest) =>
                  match skipBlank rest with
                  | '}' :: after => .ok (p, after)
                  | _ => malformed
  | _ => malformed

/-- Read a value and put it into a record under construction. -/
def into {α β : Type} (reader : Reader β) (put : α → β → α) : α → Reader α :=
  fun value cs => mapValue (put value) (reader cs)

def positionRecord : Record Position where
  name := "Position"
  fields :=
    [⟨"line", true, into size fun p line => { p with line := line }⟩,
     ⟨"column", true, into size fun p column => { p with column := column }⟩]
  blank := Position.zero

def locationRecord : Record Location where
  name := "Location"
  fields :=
    [⟨"start", true, into positionRecord.read fun l start => { l with start := start }⟩,
     ⟨"end", true, into positionRecord.read fun l stop => { l with stop := stop }⟩]
  blank := Location.zero

def originRecord : Record Origin where
  name := "Origin"
  fields :=
    [⟨"tag", true, into tag fun o t => { o with tag := t }⟩,
     ⟨"value", true, into string fun o value => { o with value := value }⟩,
     ⟨"location", false, into (optional locationRecord.read) fun o l => { o with location := l }⟩]
  blank := ⟨default, "", none⟩

def tokenRecord : Record Token where
  name := "Token"
  fields :=
    [⟨"tag", true, into tag fun t tag => { t with tag := tag }⟩,
     ⟨"value", false, into string fun t value => { t with value := value }⟩,
     ⟨"location", false, into (optional locationRecord.read) fun t l => { t with location := l }⟩,
     ⟨"provenance", false, into provenance fun t p => { t with provenance := p }⟩,
     ⟨"origin", false, into (optional originRecord.read) fun t o => { t with origin := o }⟩,
     ⟨"from_then", false, into boolean fun t b => { t with fromThen := b }⟩]
  blank := { tag := default, value := "" }

/-- Read a token stream from JSON text, which holds nothing else. -/
def read (text : String) : Except ReadError Tokens :=
  match array tokenRecord.read text.toList with
  | .error e => .error e
  | .ok (tokens, rest) =>
      match skipBlank rest with
      | [] => .ok tokens
      | _ :: _ => .error .malformed

/-! ## Writing -/

/-- The start of a line at a level. -/
def newLine (level : Nat) : List Char :=
  '\n' :: List.replicate (2 * level) ' '

/-- Parts between brackets, one per line, at a level. -/
def bracketed (left right : Char) (level : Nat) (parts : List (List Char)) : List Char :=
  [left] ++ [','].intercalate (parts.map (newLine (level + 1) ++ ·)) ++ newLine level ++ [right]

/-- A member of an object. -/
def member (name : String) (value : List Char) : List Char :=
  writeString name.toList ++ [':', ' '] ++ value

def writeNat (n : Nat) : List Char :=
  Nat.toDigits 10 n

def writePosition (level : Nat) (p : Position) : List Char :=
  bracketed '{' '}' level [member "line" (writeNat p.line), member "column" (writeNat p.column)]

def writeLocation (level : Nat) (l : Location) : List Char :=
  bracketed '{' '}' level
    [member "start" (writePosition (level + 1) l.start),
     member "end" (writePosition (level + 1) l.stop)]

/-- The members of an origin or token that are always written first. -/
def tagAndValue (t : Tag) (value : String) : List (List Char) :=
  [member "tag" (writeString t.name.toList), member "value" (writeString value.toList)]

def writeOrigin (level : Nat) (o : Origin) : List Char :=
  bracketed '{' '}' level <|
    tagAndValue o.tag o.value ++
    (match o.location with
      | some l => [member "location" (writeLocation (level + 1) l)]
      | none => [])

def writeToken (level : Nat) (t : Token) : List Char :=
  bracketed '{' '}' level <|
    tagAndValue t.tag t.value ++
    [member "location" (match t.location with
      | some l => writeLocation (level + 1) l
      | none => "null".toList)] ++
    (if t.isSynthesized then [member "provenance" (writeString t.provenance.name.toList)]
     else []) ++
    (match t.origin with
      | some o => [member "origin" (writeOrigin (level + 1) o)]
      | none => []) ++
    (if t.fromThen then [member "from_then" "true".toList] else [])

/-- A token stream as JSON text. -/
def write (tokens : Tokens) : String :=
  String.ofList <|
    if tokens.isEmpty then ['[', ']']
    else bracketed '[' ']' 0 (tokens.map (writeToken 1))

end TokenLayout.Json
