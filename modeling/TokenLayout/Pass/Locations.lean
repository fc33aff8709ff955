/-
# TokenLayout.Pass.Locations -- a location for every synthesized token

Tokens inserted by the earlier passes have no location.  Each receives a point
from a neighbour: a `{` starts where the token after it starts, anything else
sits at the end of the token before it, and where neither neighbour has a
location the token is put at the start of the source.  Tokens are taken from
left to right, so in a run of them each inherits what the one before received.
-/
import TokenLayout.Token

namespace TokenLayout.Locations

set_option autoImplicit false

/-- Where a token is put, given the locations of its neighbours. -/
def place (tag : Tag) (previous next : Option Location) : Position :=
  match tag, next, previous with
  | .mappingStart, some location, _ => location.start
  | _, _, some location => location.stop
  | _, _, none => Position.zero

/-- A token with the location its neighbours give it, if it needs one. -/
def settle (previous : Option Location) (t : Token) (next : Option Location) : Token :=
  if t.location.isSome || !t.isSynthesized then t
  else t.locate (Location.point (place t.tag previous next))

/-- Settle every token of the rest of a stream, given the location of the token
before it. -/
def settleFrom (previous : Option Location) : Tokens → Tokens
  | [] => []
  | t :: rest =>
      let settled := settle previous t (rest.head?.bind Token.location)
      settled :: settleFrom settled.location rest

/-- Give every synthesized token without a location one from its neighbours. -/
def backfill (tokens : Tokens) : Tokens :=
  settleFrom none tokens

end TokenLayout.Locations
