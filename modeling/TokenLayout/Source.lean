/-
# TokenLayout.Source -- loading a token stream

A source is text in one of two formats.  The format of a file follows from its
extension: JSON for `json`, notation for anything else.  A file that is missing
or is not UTF-8 cannot be loaded.
-/
import TokenLayout.Json.Stream
import TokenLayout.Path
import TokenLayout.Stage

namespace TokenLayout

set_option autoImplicit false

/-- How a text holds its tokens. -/
inductive InputFormat where
  | entries
  | json
  deriving DecidableEq

namespace InputFormat

def all : List InputFormat := [entries, json]

def name : InputFormat → String
  | entries => "notation"
  | json => "json"

def ofName? (name : String) : Option InputFormat :=
  all.find? fun f => f.name == name

/-- What is reported when a text names no format. -/
def unknownMessage (name : String) : String :=
  "unknown input format '" ++ name ++ "'"

/-- The format of a file, by its extension. -/
def ofPath (path : String) : InputFormat :=
  if Path.extension? path = some "json" then json else entries

end InputFormat

/-- Why a token stream cannot be loaded. -/
inductive LoadError where
  /-- The file is missing or is not text. -/
  | unavailable
  | badJson (error : Json.ReadError)
  | stage (error : StageError)

/-- The text of a token stream and its format. -/
structure Source where
  text : String
  format : InputFormat
  deriving DecidableEq

namespace Source

/-- Notation text. -/
def ofText (text : String) : Source := ⟨text, .entries⟩

/-- The file at a path, given its contents if it exists. -/
def ofFile (path : String) (contents : Option ByteArray) : Except LoadError Source :=
  match contents.bind String.fromUTF8? with
  | some text => .ok ⟨text, InputFormat.ofPath path⟩
  | none => .error .unavailable

/-- The tokens as written. -/
def tokens (s : Source) : Except LoadError Tokens :=
  match s.format with
  | .entries => (Chain.read s.text).mapError .stage
  | .json => (Json.read s.text).mapError .badJson

/-- The tokens after a chain of stages. -/
def through (s : Source) (chain : Chain) : Except LoadError Tokens := do
  let tokens ← s.tokens
  (chain.run tokens).mapError .stage

/-- The tokens after every pass, verified to be balanced. -/
def resolved (s : Source) : Except LoadError Tokens :=
  s.through (Chain.passByPass .full)

end Source

namespace LoadError

/-- The error in full, as far as its words are this library's own. -/
def message : LoadError → String
  | unavailable => "IO error: the file cannot be read as text"
  | badJson .malformed => "JSON error: the text is not well formed"
  | badJson (.mismatch reason) => "JSON error: " ++ reason.message
  | stage e => "Transform error: " ++ e.message

end LoadError

end TokenLayout
