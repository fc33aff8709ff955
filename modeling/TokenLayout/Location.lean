/-
# TokenLayout.Location -- positions and spans in a source text

A position is a line and a column, both counted from zero.  A location spans
from the first to the last character of a token; a synthesized token gets a
location of no width, a single point.
-/
namespace TokenLayout

set_option autoImplicit false

/-- The number of bytes of a text in UTF-8. -/
def byteCount : List Char → Nat
  | [] => 0
  | c :: cs => c.utf8Size + byteCount cs

/-- A line and a column, both from zero. -/
structure Position where
  line : Nat
  column : Nat
  deriving DecidableEq

namespace Position

/-- The start of the source, where anything without a location is reported. -/
def zero : Position := ⟨0, 0⟩

instance : Inhabited Position := ⟨zero⟩

/-- `line:column`. -/
def text (p : Position) : String :=
  toString p.line ++ ":" ++ toString p.column

/-- The position right after a character: a line feed ends the line, and any other
character takes as many columns as it has bytes in UTF-8. -/
def after (p : Position) (c : Char) : Position :=
  if c = '\n' then ⟨p.line + 1, 0⟩ else ⟨p.line, p.column + c.utf8Size⟩

/-- The position right after a text. -/
def afterText (p : Position) (cs : List Char) : Position :=
  cs.foldl after p

/-- Source order: by line, then by column. -/
def le (p q : Position) : Bool :=
  p.line < q.line || (p.line == q.line && p.column ≤ q.column)

end Position

/-- The span of a token, from its first to its last character. -/
structure Location where
  start : Position
  stop : Position
  deriving DecidableEq

namespace Location

/-- A location of no width. -/
def point (p : Position) : Location := ⟨p, p⟩

/-- The start of the source, as a point. -/
def zero : Location := point Position.zero

instance : Inhabited Location := ⟨zero⟩

def isPoint (l : Location) : Bool :=
  l.start == l.stop

/-- A point by its position, any other location by its two ends. -/
def text (l : Location) : String :=
  if l.isPoint then l.start.text else l.start.text ++ ".." ++ l.stop.text

/-- Order by start, and among equal starts by end. -/
def le (a b : Location) : Bool :=
  if a.start == b.start then a.stop.le b.stop else a.start.le b.start

/-- The locations from first to last; equal ones keep their order. -/
def sort (locations : List Location) : List Location :=
  locations.mergeSort le

end Location

end TokenLayout
