/-
# TokenLayout.Pass.Statements -- terminators between statements

No terminator may stand before the first statement, although blank lines and
comments at the top of a source leave one there: `dropLeading` removes them.

The end of a block usually ends the statement that owns the block, but a dedent
leaves an `OUTDENT` and no terminator.  `terminateBlocks` inserts an explicit one
after every `OUTDENT` unless the stream ends there or the next token continues
the construct: it closes a one-line body, or it suppresses terminators.
-/
import TokenLayout.Cursor

namespace TokenLayout.Statements

set_option autoImplicit false

/-- Drop every terminator before the first other token. -/
def dropLeading (tokens : Tokens) : Tokens :=
  tokens.dropWhile fun t => t.tag == .terminator

/-- The token after a block's end goes on with the construct the block is part of. -/
def continuesBlock (t : Token) : Bool :=
  t.tag.isSingleCloser || t.tag.suppressesTerminator

/-- Insert a terminator after an `OUTDENT` that ends a statement, and jump over it. -/
def visit : Cursor.PlainVisit Fault := fun before t after =>
  match after with
  | next :: _ =>
      if t.tag = .outdent ∧ !continuesBlock next then
        .ok (⟨before, t :: Token.explicit .terminator t :: after⟩, 2)
      else Cursor.keep before t after
  | [] => Cursor.keep before t after

/-- Insert a terminator after every `OUTDENT` that ends a statement.  Each visit
passes one of the tokens given, so their number is budget enough. -/
def terminateBlocks (tokens : Tokens) : Except Fault Tokens :=
  Cursor.scan visit tokens.length tokens

end TokenLayout.Statements
