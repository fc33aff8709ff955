/-
# TokenLayout.Session -- editing a stream step by step

The tokens of a stream can be made, changed and taken out one by one, passes and
resolvers can be run on it in any order, and it can be written and read back.  A
session does so step by step, with each of these an edit given as data.  It holds
one stream, empty at first.  An edit that fails leaves the stream as it was.
Indexes are checked before names, and the index of a causing token last of all.

A resolver as one edit does what its passes do as edits in a row, and then checks
the balance (`Edit.apply_resolve`).
-/
import TokenLayout.Json.Stream
import TokenLayout.Notation.Printer
import TokenLayout.Resolver

namespace TokenLayout

set_option autoImplicit false

/-- How a new token is made. -/
inductive NewToken where
  /-- A source token with this text. -/
  | valued (value : String)
  /-- A source token with its tag's default text. -/
  | bare
  /-- A generated token, caused by the token at this index. -/
  | generated (cause : Nat)
  /-- An explicit token, caused by the token at this index. -/
  | explicit (cause : Nat)

/-- One change to a stream.  Tags are given by name. -/
inductive Edit where
  | load (tokens : Tokens)
  | append (tokens : Tokens)
  | pass (p : Pass)
  | resolve (r : Resolver)
  /-- Write as notation and read back. -/
  | throughNotation
  /-- Write as JSON and read back. -/
  | throughJson
  | insert (index : Nat) (tag : String) (token : NewToken) (location : Option Location)
      (fromThen : Bool)
  | remove (index : Nat)
  | retag (index : Nat) (tag : String)
  | value (index : Nat) (value : String)
  | provenance (index : Nat) (provenance : Provenance)
  | unlocate (index : Nat)
  | locate (index : Nat) (position : Position)

/-- Why an edit fails. -/
inductive EditError where
  | fault (fault : Fault)
  | unreadable (error : Notation.ReadError)
  | badJson (error : Json.ReadError)
  /-- No token has this index; the length is that of the indexes there are. -/
  | outOfRange (index length : Nat)
  | unknownTag (name : String)

namespace EditError

/-- The index and the number of indexes there are. -/
def rangeText (index length : Nat) : String :=
  toString index ++ " of " ++ toString length

end EditError

namespace Edit

/-- The token at an index. -/
def tokenAt (tokens : Tokens) (index : Nat) : Except EditError Token :=
  match tokens[index]? with
  | some t => .ok t
  | none => .error (.outOfRange index tokens.length)

/-- Change the token at an index. -/
def change (tokens : Tokens) (index : Nat) (f : Token → Except EditError Token) :
    Except EditError Tokens := do
  let t ← tokenAt tokens index
  let changed ← f t
  return tokens.set index changed

/-- The tag of a given name. -/
def tagNamed (name : String) : Except EditError Tag :=
  match Tag.ofName? name with
  | some t => .ok t
  | none => .error (.unknownTag name)

/-- A new token under a tag. -/
def newToken (tokens : Tokens) (tag : Tag) : NewToken → Except EditError Token
  | .valued text => .ok { Token.bare tag with value := text }
  | .bare => .ok (Token.bare tag)
  | .generated cause => (tokenAt tokens cause).map (Token.generated tag)
  | .explicit cause => (tokenAt tokens cause).map (Token.explicit tag)

/-- Apply an edit to a stream. -/
def apply (tokens : Tokens) : Edit → Except EditError Tokens
  | load loaded => .ok loaded
  | append more => .ok (tokens ++ more)
  | pass p => (p.apply tokens).mapError .fault
  | resolve r => (r.run tokens).mapError .fault
  | throughNotation => (Notation.read (Notation.write tokens)).mapError .unreadable
  | throughJson => (Json.read (Json.write tokens)).mapError .badJson
  | insert index tag token location fromThen => do
      if tokens.length < index then
        .error (.outOfRange index (tokens.length + 1))
      else
        let made ← newToken tokens (← tagNamed tag) token
        let placed := { made with
          location := location <|> made.location
          fromThen := fromThen || made.fromThen }
        return tokens.insertIdx index placed
  | remove index => do
      let _ ← tokenAt tokens index
      return tokens.eraseIdx index
  | retag index tag => change tokens index fun t => (tagNamed tag).map t.retag
  | value index v => change tokens index fun t => .ok { t with value := v }
  | provenance index p => change tokens index fun t => .ok { t with provenance := p }
  | unlocate index => change tokens index fun t => .ok { t with location := none }
  | locate index position => change tokens index fun t => .ok (t.locate (.point position))

end Edit

end TokenLayout
