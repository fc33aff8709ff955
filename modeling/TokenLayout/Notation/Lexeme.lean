/-
# TokenLayout.Notation.Lexeme -- splitting notation text into lexemes

The notation is a compact written form of a token stream.  Its text is a
sequence of lexemes with gaps between some of them:

* a name: a capital, then capitals and underscores;
* a word: a small letter, `_` or `$`, then letters, digits, `_` and `$`;
* a number: digits, with a fraction only when a digit follows the point;
* a quoted text on one line, in which a backslash takes the next character;
* a flag: `+gen`, `+explicit` or `+then`;
* a symbol: a run of the punctuation characters;
* a gap: a run of blanks, or a comment from `#` to the end of the line.

At every place the longest lexeme is taken.  Only a flag and a symbol can begin
with the same character, and there the flag, where it fits, is the longer one:
the letter after its `+` ends the run of punctuation.  A character that begins
nothing is stray, and so is a quoted text that never closes.

`cut` takes one lexeme off the text, and `lex` repeats it while it counts lines
and columns.  A column is an offset in bytes of UTF-8, and only a line feed ends
a line.
-/
import TokenLayout.Location

namespace TokenLayout.Notation

set_option autoImplicit false

/-! ## Characters -/

/-- May continue a name. -/
def isNameChar (c : Char) : Bool :=
  c.isUpper || c == '_'

/-- May begin a word. -/
def isWordStart (c : Char) : Bool :=
  c.isLower || c == '_' || c == '$'

/-- May continue a word. -/
def isWordChar (c : Char) : Bool :=
  c.isAlphanum || c == '_' || c == '$'

/-- Punctuation, of which symbols are made. -/
def isSymbolChar (c : Char) : Bool :=
  c == '-' || c == '+' || c == '=' || c == '>' || c == ':' || c == ',' || c == '.' || c == '?' ||
    c == '(' || c == ')' || c == '[' || c == ']' || c == '{' || c == '}'

/-- A blank: space, tab, carriage return, line feed, form feed. -/
def isBlank (c : Char) : Bool :=
  c == ' ' || c == '\t' || c == '\r' || c == '\n' || c == '\x0c'

/-! ## One lexeme -/

/-- What a lexeme is. -/
inductive Kind where
  | name
  | word
  | number
  | quoted
  | flag
  | symbol
  deriving DecidableEq

/-- What stands at a place of the text. -/
inductive Found where
  | gap
  | lexeme (kind : Kind)
  | stray
  deriving DecidableEq

/-- A piece cut off the front of a text, and what is left of the text. -/
structure Cut where
  found : Found
  text : List Char
  rest : List Char
  deriving DecidableEq

/-- Cut off the first character and the run of `p` after it. -/
def cutRun (found : Found) (p : Char → Bool) (c : Char) (cs : List Char) : Cut :=
  ⟨found, c :: cs.takeWhile p, cs.dropWhile p⟩

/-- Cut off a number: digits, and a fraction if the point is followed by a digit. -/
def cutNumber (c : Char) (cs : List Char) : Cut :=
  let whole := c :: cs.takeWhile Char.isDigit
  match cs.dropWhile Char.isDigit with
  | '.' :: d :: rest =>
      if d.isDigit then
        ⟨.lexeme .number, whole ++ '.' :: d :: rest.takeWhile Char.isDigit,
          rest.dropWhile Char.isDigit⟩
      else ⟨.lexeme .number, whole, '.' :: d :: rest⟩
  | rest => ⟨.lexeme .number, whole, rest⟩

/-- The longest run of complete items of a quoted text, and the rest: an item is
a backslash with the character it takes, or any other character but a quote.
No item holds a line feed. -/
def items : List Char → List Char × List Char
  | '\\' :: c :: cs =>
      if c = '\n' then ([], '\\' :: c :: cs)
      else ('\\' :: c :: (items cs).1, (items cs).2)
  | c :: cs =>
      if c = '"' ∨ c = '\\' ∨ c = '\n' then ([], c :: cs)
      else (c :: (items cs).1, (items cs).2)
  | [] => ([], [])

/-- Cut off a quoted text, given what follows its opening quote.  One that is not
closed is stray as far as its items go. -/
def cutQuoted (cs : List Char) : Cut :=
  match items cs with
  | (inner, '"' :: rest) => ⟨.lexeme .quoted, '"' :: inner ++ ['"'], rest⟩
  | (inner, rest) => ⟨.stray, '"' :: inner, rest⟩

/-- The flags, without their plus sign. -/
def flagWords : List (List Char) :=
  ["gen".toList, "explicit".toList, "then".toList]

/-- Cut off a flag or a symbol, given what follows a plus sign. -/
def cutPlus (cs : List Char) : Cut :=
  match flagWords.find? fun w => w.isPrefixOf cs with
  | some w => ⟨.lexeme .flag, '+' :: w, cs.drop w.length⟩
  | none => cutRun (.lexeme .symbol) isSymbolChar '+' cs

/-- The piece that begins with `c`, in the text `c :: cs`. -/
def cut (c : Char) (cs : List Char) : Cut :=
  if isBlank c then cutRun .gap isBlank c cs
  else if c = '#' then cutRun .gap (· != '\n') c cs
  else if c.isUpper then cutRun (.lexeme .name) isNameChar c cs
  else if isWordStart c then cutRun (.lexeme .word) isWordChar c cs
  else if c.isDigit then cutNumber c cs
  else if c = '"' then cutQuoted cs
  else if c = '+' then cutPlus cs
  else if isSymbolChar c then cutRun (.lexeme .symbol) isSymbolChar c cs
  else ⟨.stray, [c], cs⟩

theorem length_dropWhile_le (p : Char → Bool) (cs : List Char) :
    (cs.dropWhile p).length ≤ cs.length :=
  (List.dropWhile_sublist p).length_le

theorem length_items_rest_le (cs : List Char) : (items cs).2.length ≤ cs.length := by
  fun_induction items cs with
  | case1 cs => exact Nat.le_refl _
  | case2 c cs _ ih => simp only [List.length_cons]; omega
  | case3 c cs => exact Nat.le_refl _
  | case4 c cs _ _ ih => simp only [List.length_cons]; omega
  | case5 => exact Nat.le_refl _

/-- Cutting uses up at least the first character. -/
theorem length_cut_rest_le (c : Char) (cs : List Char) : (cut c cs).rest.length ≤ cs.length := by
  have run (f : Found) (p : Char → Bool) (d : Char) : (cutRun f p d cs).rest.length ≤ cs.length :=
    length_dropWhile_le p cs
  unfold cut
  split
  · exact run ..
  split
  · exact run ..
  split
  · exact run ..
  split
  · exact run ..
  split
  · have digits := length_dropWhile_le Char.isDigit cs
    unfold cutNumber
    split
    · rename_i d rest hrest
      rw [hrest] at digits
      simp only [List.length_cons] at digits
      split
      · exact Nat.le_trans (length_dropWhile_le _ rest) (by omega)
      · simp only [List.length_cons]; omega
    · exact digits
  split
  · have inner := length_items_rest_le cs
    unfold cutQuoted
    split
    · rename_i hitems
      rw [hitems] at inner
      simp only [List.length_cons] at inner
      exact Nat.le_of_succ_le inner
    · rename_i hitems
      rw [hitems] at inner
      exact inner
  split
  · unfold cutPlus
    split
    · simp only [List.length_drop]; omega
    · exact run ..
  split
  · exact run ..
  · exact Nat.le_refl _

/-! ## All lexemes -/

/-- A lexeme in its text.  It is `attached` when the lexeme before it ends right
where it starts. -/
structure Lexeme where
  kind : Kind
  text : List Char
  start : Position
  attached : Bool
  deriving DecidableEq

namespace Lexeme

/-- The position of the last byte.  A lexeme never spans lines and is never empty. -/
def stop (l : Lexeme) : Position :=
  ⟨l.start.line, l.start.column + (byteCount l.text - 1)⟩

def location (l : Lexeme) : Location :=
  ⟨l.start, l.stop⟩

end Lexeme

/-- A text that begins no lexeme, and where it stands. -/
structure Stray where
  text : List Char
  position : Position
  deriving DecidableEq

/-- The lexemes of a text up to its end or to the first stray text. -/
structure Lexed where
  lexemes : List Lexeme
  stray : Option Stray
  deriving DecidableEq

/-- The lexemes of a text that starts at `p`, right after a lexeme or not. -/
def lexFrom (p : Position) (attached : Bool) : List Char → Lexed
  | [] => ⟨[], none⟩
  | c :: cs =>
      let piece := cut c cs
      let next := p.afterText piece.text
      match piece.found with
      | .gap => lexFrom next false piece.rest
      | .lexeme kind =>
          let later := lexFrom next true piece.rest
          ⟨⟨kind, piece.text, p, attached⟩ :: later.lexemes, later.stray⟩
      | .stray => ⟨[], some ⟨piece.text, p⟩⟩
  termination_by cs => cs.length
  decreasing_by all_goals exact Nat.lt_succ_of_le (length_cut_rest_le c cs)

/-- The lexemes of a text. -/
def lex (text : List Char) : Lexed :=
  lexFrom Position.zero false text

end TokenLayout.Notation
