/-
# TokenLayout.Tag -- the closed set of token tags

A token stream is a list of tagged tokens, and every structural decision of this
library is a look-up on the tag, never on the text a token was read from.  Each
tag has one canonical name, which all written forms share: a punctuation tag is
named by its symbol, every other tag by a word in capitals.

A tag also has a default text.  It is what a token carries when nothing more
specific is known, and in particular what a synthesized token carries.
-/
namespace TokenLayout

set_option autoImplicit false

/-- The tags, bracketing pairs first. -/
inductive Tag where
  | parenStart
  | parenEnd
  | bracketStart
  | bracketEnd
  | indent
  | outdent
  | mappingStart
  | mappingEnd
  | callStart
  | callEnd
  | paramStart
  | paramEnd
  | indexStart
  | indexEnd
  | stringStart
  | stringEnd
  | regexStart
  | regexEnd
  | terminator
  | ifWord
  | unlessWord
  | postIf
  | postUnless
  | elseWord
  | thenWord
  | tryWord
  | catchWord
  | finallyWord
  | classWord
  | extendsWord
  | whenWord
  | leadingWhen
  | switchWord
  | forWord
  | whileWord
  | returnWord
  | identifier
  | number
  | stringLiteral
  | regexLiteral
  | boolLiteral
  | nullLiteral
  | arrow
  | boundArrow
  | colon
  | comma
  | assign
  | compoundAssign
  | math
  | plus
  | minus
  | compare
  | logic
  | shift
  | relation
  | unary
  | dot
  | soakDot
  | prototype
  | existence
  deriving DecidableEq, Inhabited

namespace Tag

/-- Every tag once, in the order of declaration. -/
def all : List Tag :=
  [parenStart, parenEnd, bracketStart, bracketEnd, indent, outdent, mappingStart, mappingEnd,
   callStart, callEnd, paramStart, paramEnd, indexStart, indexEnd, stringStart, stringEnd,
   regexStart, regexEnd, terminator, ifWord, unlessWord, postIf, postUnless, elseWord, thenWord,
   tryWord, catchWord, finallyWord, classWord, extendsWord, whenWord, leadingWhen, switchWord,
   forWord, whileWord, returnWord, identifier, number, stringLiteral, regexLiteral, boolLiteral,
   nullLiteral, arrow, boundArrow, colon, comma, assign, compoundAssign, math, plus, minus,
   compare, logic, shift, relation, unary, dot, soakDot, prototype, existence]

theorem mem_all (t : Tag) : t ∈ all := by
  cases t <;> decide

/-- The canonical name of a tag. -/
def name : Tag → String
  | parenStart => "("
  | parenEnd => ")"
  | bracketStart => "["
  | bracketEnd => "]"
  | indent => "INDENT"
  | outdent => "OUTDENT"
  | mappingStart => "\x7b"
  | mappingEnd => "\x7d"
  | callStart => "CALL_START"
  | callEnd => "CALL_END"
  | paramStart => "PARAM_START"
  | paramEnd => "PARAM_END"
  | indexStart => "INDEX_START"
  | indexEnd => "INDEX_END"
  | stringStart => "STRING_START"
  | stringEnd => "STRING_END"
  | regexStart => "REGEX_START"
  | regexEnd => "REGEX_END"
  | terminator => "TERMINATOR"
  | ifWord => "IF"
  | unlessWord => "UNLESS"
  | postIf => "POST_IF"
  | postUnless => "POST_UNLESS"
  | elseWord => "ELSE"
  | thenWord => "THEN"
  | tryWord => "TRY"
  | catchWord => "CATCH"
  | finallyWord => "FINALLY"
  | classWord => "CLASS"
  | extendsWord => "EXTENDS"
  | whenWord => "WHEN"
  | leadingWhen => "LEADING_WHEN"
  | switchWord => "SWITCH"
  | forWord => "FOR"
  | whileWord => "WHILE"
  | returnWord => "RETURN"
  | identifier => "IDENTIFIER"
  | number => "NUMBER"
  | stringLiteral => "STRING"
  | regexLiteral => "REGEX"
  | boolLiteral => "BOOL"
  | nullLiteral => "NULL"
  | arrow => "->"
  | boundArrow => "=>"
  | colon => ":"
  | comma => ","
  | assign => "="
  | compoundAssign => "COMPOUND_ASSIGN"
  | math => "MATH"
  | plus => "+"
  | minus => "-"
  | compare => "COMPARE"
  | logic => "LOGIC"
  | shift => "SHIFT"
  | relation => "RELATION"
  | unary => "UNARY"
  | dot => "."
  | soakDot => "?."
  | prototype => "::"
  | existence => "?"

/-- The tag with a given canonical name. -/
def ofName? (name : String) : Option Tag :=
  all.find? fun t => t.name == name

/-- The words that stand for a tag of their own; any other word is an identifier. -/
def keywords : List (String × Tag) :=
  [("if", ifWord), ("unless", unlessWord), ("else", elseWord), ("then", thenWord),
   ("try", tryWord), ("catch", catchWord), ("finally", finallyWord), ("class", classWord),
   ("extends", extendsWord), ("when", whenWord), ("switch", switchWord), ("for", forWord),
   ("while", whileWord), ("return", returnWord), ("true", boolLiteral), ("false", boolLiteral),
   ("null", nullLiteral)]

/-- The tag of a keyword, spelled in lower case as a program spells it. -/
def ofKeyword? (word : String) : Option Tag :=
  keywords.lookup word

/-- The text a token of this tag carries when nothing more specific is known. -/
def defaultText : Tag → String
  | parenStart | callStart | paramStart => "("
  | parenEnd | callEnd | paramEnd => ")"
  | bracketStart | indexStart => "["
  | bracketEnd | indexEnd => "]"
  | mappingStart => "\x7b"
  | mappingEnd => "\x7d"
  | terminator => "\n"
  | ifWord | postIf => "if"
  | unlessWord | postUnless => "unless"
  | elseWord => "else"
  | thenWord => "then"
  | tryWord => "try"
  | catchWord => "catch"
  | finallyWord => "finally"
  | classWord => "class"
  | extendsWord => "extends"
  | whenWord | leadingWhen => "when"
  | switchWord => "switch"
  | forWord => "for"
  | whileWord => "while"
  | returnWord => "return"
  | nullLiteral => "null"
  | arrow => "->"
  | boundArrow => "=>"
  | colon => ":"
  | comma => ","
  | assign => "="
  | plus => "+"
  | minus => "-"
  | dot => "."
  | soakDot => "?."
  | prototype => "::"
  | existence => "?"
  | _ => ""

/-- A punctuation tag: its canonical name does not start with a capital. -/
def isSymbolic (t : Tag) : Bool :=
  !(t.name.toList.head?.any Char.isUpper)

/-- Names identify tags. -/
@[simp] theorem ofName?_name (t : Tag) : ofName? t.name = some t := by
  cases t <;> decide +kernel

theorem name_of_ofName? {s : String} {t : Tag} (h : ofName? s = some t) : t.name = s := by
  have := List.find?_some h
  simpa using this

/-- What is reported when a text is not the canonical name of any tag. -/
def unknownMessage (name : String) : String :=
  "unknown token tag '" ++ name ++ "'"

end Tag

end TokenLayout
