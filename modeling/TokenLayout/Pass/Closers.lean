/-
# TokenLayout.Pass.Closers -- closing calls and indexes

An argument list and an index are marked where they start (`CALL_START`,
`INDEX_START`) but closed by a plain `)` or `]`, and not at all where a dedent
ends them.  For every opener the end of its region is found.  A real closer
there is retagged as the dedicated one; where the region ends implicitly a
generated closer is inserted, just inside whatever ends it.

Openers are resolved from the end of the stream backwards.  An outer region then
meets the constructs inside it already closed and passes over them as pairs, and
two calls that end at one dedent receive their closers in nesting order.

A call also ends at an `OUTDENT` right after a `)` that does not close a group:
with a closing parenthesis on the line of the dedent the two come in this order,
and the `)` is the call's own closer.  A `)` that pairs with a `(` is a group, and
the call ends implicitly at the dedent.
-/
import TokenLayout.Fault
import TokenLayout.Region

namespace TokenLayout.Closers

set_option autoImplicit false

/-- A construct that is marked where it opens: its dedicated tags, and where its
region stops. -/
structure Construct where
  opener : Tag
  closer : Tag
  ends : Condition

/-- Whether the closer right after these tokens, nearest first, pairs with a `(`.
Count back over nested pairs; `depth` is the number of closers to pass. -/
def closesGroup (depth : Nat) : Tokens → Bool
  | [] => false
  | t :: earlier =>
      if t.tag.isCloser then closesGroup (depth + 1) earlier
      else if t.tag.isOpener then
        match depth with
        | 0 => t.tag == .parenStart
        | d + 1 => closesGroup d earlier
      else closesGroup depth earlier

/-- A call stops at a `)`, at a `CALL_END`, and at an `OUTDENT` right after a `)` that
closes no group. -/
def endsCall : Condition := fun before t _ =>
  match t.tag with
  | .parenEnd | .callEnd => true
  | .outdent =>
      match before with
      | previous :: earlier => previous.tag == .parenEnd && !closesGroup 0 earlier
      | [] => false
  | _ => false

/-- An index stops at a `]` and at an `INDEX_END`. -/
def endsIndex : Condition := fun _ t _ =>
  t.tag == .bracketEnd || t.tag == .indexEnd

def call : Construct := ⟨.callStart, .callEnd, endsCall⟩

def index : Construct := ⟨.indexStart, .indexEnd, endsIndex⟩

/-- Close one construct, given the tokens before its opener, nearest first, the
opener, and the tokens after it, in which every later opener is closed. -/
def closeOne (construct : Construct) (before : Tokens) (opener : Token) (after : Tokens) :
    Except Fault Tokens :=
  match (Region.after construct.ends (opener :: before) after).ending with
  | .stop i last =>
      let target := if last.tag = .outdent then i - 1 else i
      .ok (after.modify target fun t => t.retag construct.closer)
  | .implicit i => .ok (after.insertIdx i (Token.generated construct.closer opener))
  | .unclosed _ inner => .error (.ofUnclosed inner)

/-- Close every construct that opens in a part of a stream, last one first.  What stands
behind the part is closed already. -/
def closeOnto (construct : Construct) (before : Tokens) :
    Tokens → (closed : Tokens) → Except Fault Tokens
  | [], closed => .ok closed
  | t :: rest, closed =>
      match closeOnto construct (t :: before) rest closed with
      | .error e => .error e
      | .ok closed =>
          if t.tag = construct.opener then (closeOne construct before t closed).map (t :: ·)
          else .ok (t :: closed)

/-- Close every construct of a kind. -/
def close (construct : Construct) (tokens : Tokens) : Except Fault Tokens :=
  closeOnto construct [] tokens []

end TokenLayout.Closers
