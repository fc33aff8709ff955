/-
# TokenLayout.Pass.Conditionals -- leading and trailing conditionals

`if` and `unless` read the same whether they lead a statement or trail one.
Forward from the keyword over its condition, a leading one reaches the block it
owns: an `INDENT` that is not the one-line body of something inside the condition
(after `->`, `else`, `then` and the like).  A trailing one reaches the end of its
statement first: a terminator, the end of the enclosing block, or the end of the
stream.

An `INDENT` that was generated, for anything but a `then` clause, is no body
either, so reaching one also marks the keyword as trailing.
-/
import TokenLayout.Cursor
import TokenLayout.Region

namespace TokenLayout.Conditionals

set_option autoImplicit false

/-- The tag of a trailing conditional with this keyword. -/
def trailing? : Tag → Option Tag
  | .ifWord => some .postIf
  | .unlessWord => some .postUnless
  | _ => none

/-- A condition ends at a terminator, and at an `INDENT` that is not the body of a
one-line construct. -/
def endsCondition : Condition := fun before t _ =>
  match t.tag with
  | .terminator => true
  | .indent => !(before.head?.any fun previous => previous.tag.isSingleLiner)
  | _ => false

/-- The token that ended a condition opens the conditional's own body. -/
def ownsBody (t : Token) : Bool :=
  t.tag == .indent && (!t.isGenerated || t.fromThen)

/-- Whether the condition between these tokens, nearest first, and those after it
belongs to a trailing conditional. -/
def isTrailing (before after : Tokens) : Except Fault Bool :=
  match (Region.after endsCondition before after).ending with
  | .stop _ last => .ok (!ownsBody last)
  | .implicit _ => .ok true
  | .unclosed _ opener => .error (.ofUnclosed opener)

/-- Retag a conditional that trails its statement. -/
def visit : Cursor.PlainVisit Fault := fun before t after =>
  match trailing? t.tag with
  | none => Cursor.keep before t after
  | some tag =>
      match isTrailing (t :: before) after with
      | .error e => .error e
      | .ok true => Cursor.keep before (t.retag tag) after
      | .ok false => Cursor.keep before t after

/-- Retag every conditional that trails its statement.  The walk visits each token
once, so their number is budget enough. -/
def markTrailing (tokens : Tokens) : Except Fault Tokens :=
  Cursor.scan visit tokens.length tokens

end TokenLayout.Conditionals
