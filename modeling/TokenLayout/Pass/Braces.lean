/-
# TokenLayout.Pass.Braces -- mapping literals and class bodies

Every brace arrives as a generic block marker, and a colon settles what it is:
the innermost brace pair around a `key: value` pair is a mapping.  For each colon
the nearest open brace not closed before it and the nearest close brace not
opened after it are retagged.

A class body written as a mapping needs a block as well as the mapping.  When
the open brace being retagged has `class` or `extends` among the two tokens
before it, the mapping is wrapped in a generated `INDENT` and `OUTDENT`.  Only a
generic brace is retagged, so a body is wrapped once, at its first colon.

The empty mapping is written with a colon alone between its braces.  There the
braces are retagged and the colon is dropped.
-/
import TokenLayout.Cursor

namespace TokenLayout.Braces

set_option autoImplicit false

/-- The tokens passed on the way to a token, nearest first, that token, and the
tokens beyond it. -/
structure Sought where
  passed : Tokens
  token : Token
  beyond : Tokens

/-- The nearest token in `wanted` that is not the partner of a token in `nested`
passed on the way; `depth` partners are still to be passed. -/
def seek (wanted nested : Tag → Bool) (depth : Nat) : Tokens → Option Sought
  | [] => none
  | t :: rest =>
      let pass (deeper : Nat) : Option Sought :=
        (seek wanted nested deeper rest).map fun s => { s with passed := t :: s.passed }
      if nested t.tag then pass (depth + 1)
      else if wanted t.tag then
        match depth with
        | 0 => some ⟨[], t, rest⟩
        | d + 1 => pass d
      else pass depth

/-- The nearest open brace before a place, and not closed before it. -/
def openBrace? (before : Tokens) : Option Sought :=
  seek Tag.isOpenBrace Tag.isCloseBrace 0 before

/-- The nearest close brace after a place, and not opened after it. -/
def closeBrace? (after : Tokens) : Option Sought :=
  seek Tag.isCloseBrace Tag.isOpenBrace 0 after

/-- The brace after these tokens, nearest first, opens the body of a class. -/
def opensClassBody (before : Tokens) : Bool :=
  (before.take 2).any fun t => t.tag == .classWord || t.tag == .extendsWord

/-- An open brace, a colon and a close brace that spell the empty mapping. -/
def isEmptyMapping (openBrace colon closeBrace : Token) : Bool :=
  openBrace.tag.isOpenBrace && openBrace.value == "\x7b" && colon.value == ":" &&
    closeBrace.tag.isCloseBrace && closeBrace.value == "\x7d"

/-- The tokens around the place of a colon once the brace pair around it is a
mapping. -/
def markMapping (before : Tokens) (colon : Token) (after : Tokens) :
    Except Fault (Tokens × Tokens) :=
  match openBrace? before with
  | none => .error (.unmatchedMappingOpen colon.reportedAt)
  | some left =>
      match closeBrace? after with
      | none => .error (.unmatchedMappingClose colon.reportedAt)
      | some right =>
          let isBlock := left.token.tag == .indent
          let brace := if isBlock then left.token.retag .mappingStart else left.token
          let isBody := isBlock && opensClassBody left.beyond
          let wrap (tag : Tag) (beyond : Tokens) : Tokens :=
            if isBody then Token.generated tag brace :: beyond else beyond
          .ok (left.passed ++ brace :: wrap .indent left.beyond,
            right.passed ++ right.token.retag .mappingEnd :: wrap .outdent right.beyond)

/-- Make a colon's brace pair a mapping, or drop the colon of an empty mapping and
jump over its close brace. -/
def visit : Cursor.PlainVisit Fault := fun before t after =>
  if t.tag ≠ .colon then Cursor.keep before t after
  else
    match before, after with
    | previous :: earlier, next :: later =>
        if isEmptyMapping previous t next then
          .ok (⟨previous.retag .mappingStart :: earlier, next.retag .mappingEnd :: later⟩, 1)
        else (markMapping before t after).map fun p => (⟨p.1, t :: p.2⟩, 1)
    | _, _ => (markMapping before t after).map fun p => (⟨p.1, t :: p.2⟩, 1)

/-- Retag the braces around every `key: value` pair.  Each visit passes one token,
and only the visit of a colon adds one to those ahead, so twice their number is
budget enough. -/
def markMappings (tokens : Tokens) : Except Fault Tokens :=
  Cursor.scan visit (2 * tokens.length) tokens

end TokenLayout.Braces
