/-
# TokenLayout.Proofs.Programs -- programs and their two renderings

A program is a syntax tree.  It can be rendered as a stream in two ways: as the
lexer writes it, with much of its structure left out, and resolved, with all of
it made explicit.  Both are read off one list of entries: an entry is a token, a
pair of tokens for the two renderings, or a token of one rendering only, and what
differs says by which `Repair` of the stream the one becomes the other.  So a
rendering also has stages between the two (`Rendering.shown`).

Expressions are names, numbers, groups, calls, indexes, mappings and functions.
Statements are expressions, assignments, trailing and leading conditionals and
classes.  A block, and the whole program, is a list of statements, and may end
with a call whose closer is left out; the last argument of such a call may be
another one.
-/
import TokenLayout.Resolver

namespace TokenLayout

set_option autoImplicit false

/-! ## Entries -/

/-- What a run repairs in a stream, in the order in which it does. -/
inductive Repair where
  | closers
  | conditionals
  | mappings
  | terminators
  deriving DecidableEq

namespace Repair

/-- The repairs made before this one. -/
def before : Repair → List Repair
  | closers => []
  | conditionals => [closers]
  | mappings => [closers, conditionals]
  | terminators => [closers, conditionals, mappings]

/-- The repairs made once this one is. -/
def done (repair : Repair) : List Repair :=
  repair.before ++ [repair]

end Repair

/-- A source token of a tag with a text of its own. -/
def Token.spelled (tag : Tag) (text : String) : Token :=
  { Token.bare tag with value := text }

/-- An entry of a rendering. -/
inductive Entry where
  /-- The same token throughout. -/
  | both (t : Token)
  /-- A token that a repair makes another one. -/
  | pair (lexed resolved : Token) (repair : Repair)
  /-- A token that a repair drops. -/
  | lexedOnly (t : Token) (repair : Repair)
  /-- A token that a repair inserts. -/
  | resolvedOnly (t : Token) (repair : Repair)

/-- The tag of a conditional's keyword. -/
def keyword (negated : Bool) : Tag :=
  if negated then .unlessWord else .ifWord

/-- The tag of its keyword if it trails. -/
def trailingKeyword (negated : Bool) : Tag :=
  if negated then .postUnless else .postIf

namespace Entry

/-- The tokens of an entry when these repairs are made. -/
def shown (repairs : List Repair) : Entry → Tokens
  | both t => [t]
  | pair lexed resolved repair => if repair ∈ repairs then [resolved] else [lexed]
  | lexedOnly t repair => if repair ∈ repairs then [] else [t]
  | resolvedOnly t repair => if repair ∈ repairs then [t] else []

/-- A word or a punctuation mark. -/
def mark (tag : Tag) : Entry :=
  both (.bare tag)

def name (text : String) : Entry :=
  both (.spelled .identifier text)

def number (text : String) : Entry :=
  both (.spelled .number text)

def callEnd : Entry :=
  pair (.bare .parenEnd) (.bare .callEnd) .closers

/-- The closer of a call that the source leaves out. -/
def openCallEnd : Entry :=
  resolvedOnly (.generated .callEnd (.bare .callStart)) .closers

def indexEnd : Entry :=
  pair (.bare .bracketEnd) (.bare .indexEnd) .closers

def trailing (negated : Bool) : Entry :=
  pair (.bare (keyword negated)) (.bare (trailingKeyword negated)) .conditionals

def openBrace : Entry :=
  pair (.spelled .indent "\x7b") (.bare .mappingStart) .mappings

def closeBrace : Entry :=
  pair (.spelled .outdent "\x7d") (.bare .mappingEnd) .mappings

/-- The colon by which the lexer spells the empty mapping. -/
def emptyColon : Entry :=
  lexedOnly (.bare .colon) .mappings

/-- The start of the block that a class body needs. -/
def bodyStart : Entry :=
  resolvedOnly (.generated .indent (.bare .mappingStart)) .mappings

def bodyEnd : Entry :=
  resolvedOnly (.generated .outdent (.bare .mappingStart)) .mappings

/-- The terminator of a statement that ends with a block. -/
def blockTerminator : Entry :=
  resolvedOnly (.explicit .terminator (.bare .outdent)) .terminators

end Entry

/-! ## Renderings -/

/-- A list of entries. -/
abbrev Rendering := List Entry

namespace Rendering

/-- The stream of a rendering when these repairs are made. -/
def shown (repairs : List Repair) (rendering : Rendering) : Tokens :=
  rendering.flatMap (Entry.shown repairs)

/-- The stream as the lexer writes it. -/
def lexed (rendering : Rendering) : Tokens :=
  rendering.shown []

/-- The stream with everything made explicit. -/
def resolved (rendering : Rendering) : Tokens :=
  rendering.shown Repair.terminators.done

/-- The last token of the resolved stream ends a block. -/
def endsBlock (rendering : Rendering) : Bool :=
  rendering.resolved.getLast?.any fun t => t.tag == .outdent

/-- A rendering between an opener and a closer. -/
def enclosed (opener : Entry) (inside : Rendering) (closer : Entry) : Rendering :=
  opener :: (inside ++ [closer])

/-- A block of statements. -/
def block (statements : Rendering) : Rendering :=
  enclosed (.mark .indent) statements (.mark .outdent)

/-- Members between the braces of a mapping. -/
def mapping (members : Rendering) : Rendering :=
  enclosed .openBrace members .closeBrace

/-- A mapping in the block that a class body needs. -/
def classBody (members : Rendering) : Rendering :=
  enclosed .bodyStart (mapping members) .bodyEnd

/-- One rendering and then another, with an entry between the two. -/
def joined (left : Rendering) (between : Entry) (right : Rendering) : Rendering :=
  if left.isEmpty then right
  else if right.isEmpty then left
  else left ++ between :: right

/-- Renderings with commas between them. -/
def listed (items : List Rendering) : Rendering :=
  items.foldr (fun item rest => joined item (.mark .comma) rest) []

/-- What stands between a statement and the next one. -/
def separator (statement : Rendering) : Entry :=
  if statement.endsBlock then .blockTerminator else .mark .terminator

end Rendering

open Rendering (enclosed block joined listed separator)

/-! ## Programs -/

/-- An expression that neither opens a block nor ends with one. -/
inductive Simple where
  | name (text : String)
  | number (text : String)
  /-- A call with names for arguments. -/
  | call (callee : String) (arguments : List String)

/-- An argument of a call without a closer. -/
inductive Argument where
  | plain (value : Simple)
  | group (value : Simple)

/-- A call whose closer the source leaves out. -/
inductive OpenCall where
  | single (callee : String) (arguments : List Argument)
  /-- Its last argument is another one. -/
  | chain (callee : String) (arguments : List Argument) (last : OpenCall)

/-- The kinds of phrases. -/
inductive Phrase.Kind where
  | expression
  | arguments
  | members
  | statement
  | alternative
  | block

/-- A phrase of a program. -/
inductive Phrase : Phrase.Kind → Type where
  | name (text : String) : Phrase .expression
  | number (text : String) : Phrase .expression
  | group (inside : Phrase .expression) : Phrase .expression
  | call (callee : String) (arguments : Phrase .arguments) : Phrase .expression
  | index (base : String) (inside : Phrase .expression) : Phrase .expression
  | mapping (members : Phrase .members) : Phrase .expression
  | emptyMapping : Phrase .expression
  | function (body : Phrase .block) : Phrase .expression
  | noArgument : Phrase .arguments
  | argument (first : Phrase .expression) (rest : Phrase .arguments) : Phrase .arguments
  | lastMember (key : String) (value : Phrase .expression) : Phrase .members
  | member (key : String) (value : Phrase .expression) (rest : Phrase .members) :
      Phrase .members
  | evaluate (value : Phrase .expression) : Phrase .statement
  | assign (target : String) (value : Phrase .expression) : Phrase .statement
  /-- A trailing `if` or `unless`. -/
  | guarded (body : Simple) (negated : Bool) (condition : String) : Phrase .statement
  /-- A leading `if` or `unless`. -/
  | branch (negated : Bool) (condition : Simple) (body : Phrase .block)
      (otherwise : Phrase .alternative) : Phrase .statement
  | classOf (className : String) (parent : Option String) (members : Phrase .members) :
      Phrase .statement
  | noAlternative : Phrase .alternative
  | alternative (body : Phrase .block) : Phrase .alternative
  /-- The end of a block, and the call it ends with. -/
  | finish (last : Option OpenCall) : Phrase .block
  | sequence (first : Phrase .statement) (rest : Phrase .block) : Phrase .block

/-- A program is what a block is. -/
abbrev Program := Phrase .block

/-! ## Rendering a program -/

def Simple.rendering : Simple → Rendering
  | name text => [.name text]
  | number text => [.number text]
  | call callee arguments =>
      .name callee ::
        enclosed (.mark .callStart) (listed (arguments.map fun text => [.name text])) .callEnd

def Argument.rendering : Argument → Rendering
  | plain value => value.rendering
  | group value => enclosed (.mark .parenStart) value.rendering (.mark .parenEnd)

def OpenCall.rendering : OpenCall → Rendering
  | single callee arguments =>
      .name callee ::
        enclosed (.mark .callStart) (listed (arguments.map Argument.rendering)) .openCallEnd
  | chain callee arguments last =>
      .name callee ::
        enclosed (.mark .callStart)
          (joined (listed (arguments.map Argument.rendering)) (.mark .comma) last.rendering)
          .openCallEnd

namespace Phrase

def rendering {kind : Kind} : Phrase kind → Rendering
  | name text => [.name text]
  | number text => [.number text]
  | group inside => enclosed (.mark .parenStart) inside.rendering (.mark .parenEnd)
  | call callee arguments =>
      .name callee :: enclosed (.mark .callStart) arguments.rendering .callEnd
  | index base inside => .name base :: enclosed (.mark .indexStart) inside.rendering .indexEnd
  | mapping members => Rendering.mapping members.rendering
  | emptyMapping => Rendering.mapping [.emptyColon]
  | function body => .mark .arrow :: block body.rendering
  | noArgument => []
  | argument first rest => joined first.rendering (.mark .comma) rest.rendering
  | lastMember key value => .name key :: .mark .colon :: value.rendering
  | member key value rest =>
      .name key :: .mark .colon :: (value.rendering ++ .mark .comma :: rest.rendering)
  | evaluate value => value.rendering
  | assign target value => .name target :: .mark .assign :: value.rendering
  | guarded body negated condition => body.rendering ++ [.trailing negated, .name condition]
  | branch negated condition body otherwise =>
      .mark (keyword negated) ::
        (condition.rendering ++ (block body.rendering ++ otherwise.rendering))
  | classOf className parent members =>
      .mark .classWord :: .name className ::
        ((match parent with
          | some parent => [.mark .extendsWord, .name parent]
          | none => []) ++ Rendering.classBody members.rendering)
  | noAlternative => []
  | alternative body => .mark .elseWord :: block body.rendering
  | finish none => []
  | finish (some last) => last.rendering
  | sequence first rest => joined first.rendering (separator first.rendering) rest.rendering

end Phrase

/-- A program as the lexer writes it, after this many newlines. -/
def Program.lexed (program : Program) (newlines : Nat) : Tokens :=
  List.replicate newlines (.bare .terminator) ++ Rendering.lexed (Phrase.rendering program)

/-- A program with everything made explicit. -/
def Program.resolved (program : Program) : Tokens :=
  Rendering.resolved (Phrase.rendering program)

end TokenLayout
