/-
# TokenLayout.Output -- printing a stream

A stream is printed as its line of tags, as notation, or as JSON.
-/
import TokenLayout.Json.Stream
import TokenLayout.Notation.Printer

namespace TokenLayout

set_option autoImplicit false

/-- How a stream is printed. -/
inductive OutputFormat where
  | tags
  | entries
  | json
  deriving DecidableEq

namespace OutputFormat

def all : List OutputFormat := [tags, entries, json]

def name : OutputFormat → String
  | tags => "tags"
  | entries => "notation"
  | json => "json"

def ofName? (name : String) : Option OutputFormat :=
  all.find? fun f => f.name == name

@[simp] theorem ofName?_name (f : OutputFormat) : ofName? f.name = some f := by
  cases f <;> decide +kernel

/-- A stream in this format; only a line of tags may show locations. -/
def render (format : OutputFormat) (showLocations : Bool) (tokens : Tokens) : String :=
  match format with
  | tags => Notation.tagLine showLocations tokens
  | entries => Notation.write tokens
  | json => Json.write tokens

end OutputFormat

end TokenLayout
