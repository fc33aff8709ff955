/-
# TokenLayout.Tag.Nesting -- the structural classes of tags

Nine pairs of tags nest.  A generic block marker (`INDENT`, `OUTDENT`) is what a
brace looks like before anything is known about it; a mapping brace is what it
becomes once a colon shows it to be a mapping.  For matching braces the two are
one kind: `isOpenBrace` and `isCloseBrace`.

The remaining tables say how a block that ends without a mark of its own meets
the token after it: a `singleCloser` ends a one-line body, and a tag that
`suppressesTerminator` continues the statement the block belongs to.
-/
import TokenLayout.Tag

namespace TokenLayout

set_option autoImplicit false

namespace Tag

/-- The opener and closer of each nesting pair. -/
def pairs : List (Tag × Tag) :=
  [(parenStart, parenEnd), (bracketStart, bracketEnd), (indent, outdent),
   (mappingStart, mappingEnd), (callStart, callEnd), (paramStart, paramEnd),
   (indexStart, indexEnd), (stringStart, stringEnd), (regexStart, regexEnd)]

/-- The tag opens a pair. -/
def isOpener (t : Tag) : Bool :=
  pairs.any fun p => p.1 == t

/-- The tag closes a pair. -/
def isCloser (t : Tag) : Bool :=
  pairs.any fun p => p.2 == t

/-- The other member of the pair a tag belongs to. -/
def partner? (t : Tag) : Option Tag :=
  match pairs.find? fun p => p.1 == t || p.2 == t with
  | some p => if p.1 == t then some p.2 else some p.1
  | none => none

/-- The tags that may be followed by a one-line body wrapped in a block. -/
def singleLiners : List Tag :=
  [elseWord, arrow, boundArrow, tryWord, finallyWord, thenWord]

/-- The tags that end a one-line body. -/
def singleClosers : List Tag :=
  [terminator, catchWord, finallyWord, elseWord, outdent, leadingWhen]

/-- The operators; a block followed by one of them is an operand. -/
def operators : List Tag :=
  [assign, compoundAssign, math, plus, minus, compare, logic, shift, relation, unary, dot,
   soakDot, prototype, existence]

def isSingleLiner (t : Tag) : Bool :=
  singleLiners.contains t

def isSingleCloser (t : Tag) : Bool :=
  singleClosers.contains t

/-- No terminator is put between the end of a block and this tag: a closer other
than the generic one, a comma, or an operator. -/
def suppressesTerminator (t : Tag) : Bool :=
  (t.isCloser && t != outdent) || t == comma || operators.contains t

/-- A generic block opener or a mapping opener. -/
def isOpenBrace (t : Tag) : Bool :=
  t == indent || t == mappingStart

/-- A generic block closer or a mapping closer. -/
def isCloseBrace (t : Tag) : Bool :=
  t == outdent || t == mappingEnd

/-- The openers, in the order of declaration. -/
def openers : List Tag :=
  all.filter isOpener

/-- The closers, in the order of declaration. -/
def closers : List Tag :=
  all.filter isCloser

/-- Each pair member with its counterpart, in the order of declaration. -/
def partners : List (Tag × Tag) :=
  all.filterMap fun t => t.partner?.map fun p => (t, p)

/-- The tags no terminator is put before, in the order of declaration. -/
def terminatorSuppressors : List Tag :=
  all.filter suppressesTerminator

/-- No tag both opens and closes. -/
theorem isCloser_of_isOpener {t : Tag} (h : t.isOpener = true) : t.isCloser = false := by
  cases t <;> revert h <;> decide

/-- Being partners is symmetric. -/
theorem partner?_partner? {t p : Tag} (h : t.partner? = some p) : p.partner? = some t := by
  cases t <;> cases h <;> rfl

end Tag

end TokenLayout
