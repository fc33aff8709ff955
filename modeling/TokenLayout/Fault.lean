/-
# TokenLayout.Fault -- why a stream cannot be laid out

Every fault names the token that makes the stream unusable, by its tag and by
the place it is reported at (`Token.reportedAt`).
-/
import TokenLayout.Token

namespace TokenLayout

set_option autoImplicit false

/-- Why a pass or the balance check fails. -/
inductive Fault where
  /-- The stream ends with this opener still open. -/
  | unclosed (tag : Tag) (location : Location)
  /-- No open brace encloses the colon at this location. -/
  | unmatchedMappingOpen (location : Location)
  /-- No close brace ends the mapping of the colon at this location. -/
  | unmatchedMappingClose (location : Location)
  /-- A pair member without a partner. -/
  | unbalanced (tag : Tag) (location : Location)
  deriving DecidableEq

namespace Fault

/-- The fault of an opener that stays open. -/
def ofUnclosed (opener : Token) : Fault :=
  unclosed opener.tag opener.reportedAt

/-- The fault of a pair member without a partner. -/
def ofUnbalanced (token : Token) : Fault :=
  unbalanced token.tag token.reportedAt

def location : Fault → Location
  | unclosed _ l | unmatchedMappingOpen l | unmatchedMappingClose l | unbalanced _ l => l

/-- The tag of the token at fault, where the fault is about a pair member. -/
def tag? : Fault → Option Tag
  | unclosed t _ | unbalanced t _ => some t
  | _ => none

def message : Fault → String
  | unclosed t l => "unclosed '" ++ t.name ++ "' at " ++ l.text
  | unmatchedMappingOpen l => "':' at " ++ l.text ++ " is not inside any block or mapping"
  | unmatchedMappingClose l => "the mapping for ':' at " ++ l.text ++ " is never closed"
  | unbalanced t l => "unbalanced '" ++ t.name ++ "' at " ++ l.text

end Fault

end TokenLayout
