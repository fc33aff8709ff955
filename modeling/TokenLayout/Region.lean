/-
# TokenLayout.Region -- where a nested construct ends

Several passes need one search: from right after some token walk forward over
nested pairs until

* a stop condition holds at depth zero: the region ends with that token;
* a closer comes that nothing inside the region opened, or the stream ends at
  depth zero: the enclosing structure ends first, and a closer for the region
  belongs right there;
* the stream ends with something still open: no pass can mend that, and the
  outermost opener that stays open is reported.

Depth counts openers and closers of all kinds alike.  The stop condition is
asked at depth zero only, and before the token's own effect on the depth, so
that it sees a closer before that closer would end the region.

A place in a stream is given by the tokens before it, nearest first, and the
tokens from it on.
-/
import TokenLayout.Token

namespace TokenLayout

set_option autoImplicit false

/-- A condition on a token and its surroundings: the tokens before it, nearest
first, the token, and the tokens after it. -/
abbrev Condition := Tokens → Token → Tokens → Bool

/-- How a region ends.  Places are counted from wherever the scan counts. -/
inductive RegionEnd where
  /-- The stop condition holds for this token, at this index. -/
  | stop (index : Nat) (token : Token)
  /-- The enclosing structure ends first; a closer belongs at this index. -/
  | implicit (index : Nat)
  /-- The stream ends while this opener, at this index, is open. -/
  | unclosed (index : Nat) (opener : Token)
  deriving DecidableEq

/-- How a region ends, and the indexes at which the stop condition was asked. -/
structure Region where
  ending : RegionEnd
  asked : List Nat
  deriving DecidableEq

namespace Region

/-- Scan on from a place.  `opened` holds the openers met inside the region and
still open, innermost first; `index` is the number of the first token of the
last argument. -/
def scan (stop : Condition) (opened : List (Nat × Token)) (before : Tokens) (index : Nat) :
    Tokens → Region
  | [] =>
      match opened.getLast? with
      | some (i, opener) => ⟨.unclosed i opener, []⟩
      | none => ⟨.implicit index, []⟩
  | t :: after =>
      if opened.isEmpty && stop before t after then ⟨.stop index t, [index]⟩
      else
        let later : Region :=
          if t.tag.isOpener then scan stop ((index, t) :: opened) (t :: before) (index + 1) after
          else if t.tag.isCloser then
            match opened with
            | _ :: outer => scan stop outer (t :: before) (index + 1) after
            | [] => ⟨.implicit index, []⟩
          else scan stop opened (t :: before) (index + 1) after
        if opened.isEmpty then ⟨later.ending, index :: later.asked⟩ else later

/-- The region that starts right after the tokens `before`, counted from there. -/
def after (stop : Condition) (before tokens : Tokens) : Region :=
  scan stop [] before 0 tokens

end Region

/-- The region of a stream that starts at an index, counted from the start of the
stream.  An index beyond the end counts as the end. -/
def detectEnd (stop : Condition) (tokens : Tokens) (start : Nat) : Region :=
  Region.scan stop [] (tokens.take start).reverse (min start tokens.length) (tokens.drop start)

/-- The stop condition "the tag is one of these". -/
def tagIn (tags : List Tag) : Condition :=
  fun _ t _ => tags.contains t.tag

end TokenLayout
