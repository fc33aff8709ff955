/-
# TokenLayout.Toml.Text -- blanks, strings and keys of a document

Lines end with a line feed, which a carriage return may precede.  A comment runs
from `#` to the end of its line.  Control characters other than the tab stand
nowhere, not in comments or strings either.

A string stands in double quotes, with escapes, or in single quotes, without.
Three quotes instead of one make a string of several lines: a line end right
after the opening quotes is left out, up to two quotes may stand right before the
closing ones, and with double quotes a backslash at the end of a line takes away
the line end and all blanks and line ends after it.
-/
import TokenLayout.Text.Digit

namespace TokenLayout.Toml

set_option autoImplicit false

/-! ## Blanks -/

def isBlank (c : Char) : Bool :=
  c == ' ' || c == '\t'

def skipBlank (cs : List Char) : List Char :=
  cs.dropWhile isBlank

/-- May stand within a line: anything but a control character, or a tab. -/
def isTextChar (c : Char) : Bool :=
  c == '\t' || (0x20 ≤ c.toNat && c.toNat != 0x7f)

/-- The text after the end of a line, which blanks and a comment may precede.
The end of the text ends its last line. -/
def endLine? (cs : List Char) : Option (List Char) :=
  let rest := match skipBlank cs with
    | '#' :: more => more.dropWhile isTextChar
    | more => more
  match rest with
  | [] => some []
  | '\n' :: more => some more
  | '\r' :: '\n' :: more => some more
  | _ => none

/-- Skip blanks, line ends and comments, as between the items of a list.
`inComment` says that a comment has begun.  What cannot stand in a comment is left,
and nothing else can begin with it. -/
def skipLines (inComment : Bool) : List Char → List Char
  | [] => []
  | '\n' :: rest => skipLines false rest
  | '\r' :: '\n' :: rest => skipLines false rest
  | c :: rest =>
      if inComment then if isTextChar c then skipLines true rest else c :: rest
      else if isBlank c then skipLines false rest
      else if c = '#' then skipLines true rest
      else c :: rest

/-! ## Strings -/

/-- The inside of a string, escapes as they are written, and the text after its
closing quote. -/
def inside? (quote : Char) : List Char → Option (List Char × List Char)
  | [] => none
  | c :: rest =>
      if c = quote then some ([], rest)
      else if c = '\\' ∧ quote = '"' then
        match rest with
        | e :: more => (inside? quote more).map fun (inner, after) => ('\\' :: e :: inner, after)
        | [] => none
      else (inside? quote rest).map fun (inner, after) => (c :: inner, after)

/-- The same for a string of several lines. -/
def insideLines? (quote : Char) : List Char → Option (List Char × List Char)
  | [] => none
  | c :: rest =>
      if c = quote then
        match rest with
        | c₂ :: c₃ :: more =>
            if c₂ = quote ∧ c₃ = quote then
              let extra := (more.take 2).takeWhile (· == quote)
              some (extra, more.drop extra.length)
            else (insideLines? quote rest).map fun (inner, after) => (c :: inner, after)
        | _ => none
      else if c = '\\' ∧ quote = '"' then
        match rest with
        | e :: more => (insideLines? quote more).map fun (inner, after) => ('\\' :: e :: inner, after)
        | [] => none
      else (insideLines? quote rest).map fun (inner, after) => (c :: inner, after)

/-- Every line end as a line feed. -/
def lineFeeds : List Char → List Char
  | '\r' :: '\n' :: rest => '\n' :: lineFeeds rest
  | c :: rest => c :: lineFeeds rest
  | [] => []

/-- The character whose number hexadecimal digits spell. -/
def numbered? (ds : List Char) : Option Char := do
  let n ← ds.foldlM (fun n d => (Text.hexDigit? d).map (16 * n + ·)) 0
  if n < 0xD800 ∨ 0xDFFF < n ∧ n < 0x110000 then some (Char.ofNat n) else none

/-- The character that a backslash and this one stand for. -/
def escape? : Char → Option Char
  | '"' => some '"'
  | '\\' => some '\\'
  | 'b' => some '\x08'
  | 't' => some '\t'
  | 'n' => some '\n'
  | 'f' => some '\x0c'
  | 'r' => some '\r'
  | _ => none

/-- The text after blanks, a line end, and all blanks and line ends after that. -/
def joinLines? (cs : List Char) : Option (List Char) :=
  match skipBlank cs with
  | '\n' :: rest => some (rest.dropWhile fun c => isBlank c || c == '\n')
  | _ => none

/-- The inside of a string with its escapes resolved.  Each step uses up text, so
its length is fuel enough. -/
def unescape? : Nat → List Char → Option (List Char)
  | _, [] => some []
  | 0, _ => none
  | fuel + 1, '\\' :: 'u' :: rest =>
      if rest.length < 4 then none
      else do return (← numbered? (rest.take 4)) :: (← unescape? fuel (rest.drop 4))
  | fuel + 1, '\\' :: 'U' :: rest =>
      if rest.length < 8 then none
      else do return (← numbered? (rest.take 8)) :: (← unescape? fuel (rest.drop 8))
  | fuel + 1, '\\' :: rest =>
      match joinLines? rest with
      | some after => unescape? fuel after
      | none =>
          match rest with
          | c :: after => do return (← escape? c) :: (← unescape? fuel after)
          | [] => none
  | fuel + 1, c :: rest => (unescape? fuel rest).map (c :: ·)

/-- What the inside of a string stands for. -/
def meaning? (quote : Char) (inner : List Char) : Option String :=
  if quote = '"' then (unescape? inner.length inner).map String.ofList
  else some (String.ofList inner)

/-- A string on one line, given what follows its opening quote. -/
def shortString? (quote : Char) (cs : List Char) : Option (String × List Char) := do
  let (inner, rest) ← inside? quote cs
  if inner.all isTextChar then return (← meaning? quote inner, rest) else none

/-- A string of several lines, given what follows its opening quotes. -/
def longString? (quote : Char) (cs : List Char) : Option (String × List Char) := do
  let (inner, rest) ← insideLines? quote cs
  let inner := match lineFeeds inner with
    | '\n' :: more => more
    | all => all
  if inner.all fun c => isTextChar c || c == '\n' then
    return (← meaning? quote inner, rest)
  else none

/-- A string, given its opening quote and what follows it. -/
def string? (quote : Char) (cs : List Char) : Option (String × List Char) :=
  match cs with
  | c₂ :: c₃ :: more =>
      if c₂ = quote ∧ c₃ = quote then longString? quote more else shortString? quote cs
  | _ => shortString? quote cs

/-! ## Keys -/

/-- May stand in a key without quotes. -/
def isKeyChar (c : Char) : Bool :=
  c.isAlphanum || c == '_' || c == '-'

/-- One part of a key. -/
def keyPart? : List Char → Option (String × List Char)
  | '"' :: rest => shortString? '"' rest
  | '\'' :: rest => shortString? '\'' rest
  | cs =>
      let name := cs.takeWhile isKeyChar
      if name.isEmpty then none else some (String.ofList name, cs.dropWhile isKeyChar)

/-- A key of at most so many parts, with the blanks around them. -/
def key? : Nat → List Char → Option (List String × List Char)
  | 0, _ => none
  | parts + 1, cs => do
      let (part, rest) ← keyPart? (skipBlank cs)
      match skipBlank rest with
      | '.' :: more =>
          let (others, rest) ← key? parts more
          return (part :: others, rest)
      | rest => return ([part], rest)

end TokenLayout.Toml
