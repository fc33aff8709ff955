/-
# TokenLayout.Pass -- the passes and their order

A lexer leaves much of a stream's structure implicit: calls and indexes are only
marked where they open, blocks end without ending their statement, braces may be
blocks or mappings, and `if` reads the same leading a statement as trailing it.
Seven passes make all of it explicit.  Each assumes that those before it have
run, and leaves the stream well formed for those after it.
-/
import TokenLayout.Balance
import TokenLayout.Pass.Braces
import TokenLayout.Pass.Closers
import TokenLayout.Pass.Conditionals
import TokenLayout.Pass.Locations
import TokenLayout.Pass.Statements

namespace TokenLayout

set_option autoImplicit false

/-- One pass. -/
inductive Pass where
  | leadingNewlines
  | closeCalls
  | closeIndexes
  | trailingConditionals
  | mappingLiterals
  | terminators
  | locationBackfill
  deriving DecidableEq

namespace Pass

/-- Every pass, in the order they run. -/
def order : List Pass :=
  [leadingNewlines, closeCalls, closeIndexes, trailingConditionals, mappingLiterals, terminators,
   locationBackfill]

def name : Pass → String
  | leadingNewlines => "leading-newlines"
  | closeCalls => "close-calls"
  | closeIndexes => "close-indexes"
  | trailingConditionals => "postfix-conditionals"
  | mappingLiterals => "mapping-literals"
  | terminators => "terminators"
  | locationBackfill => "location-backfill"

def description : Pass → String
  | leadingNewlines => "Drop terminators before the first statement"
  | closeCalls => "Retag or insert CALL_END for every CALL_START"
  | closeIndexes => "Retag or insert INDEX_END for every INDEX_START"
  | trailingConditionals => "Tag trailing if/unless as POST_IF/POST_UNLESS"
  | mappingLiterals => "Retag braces around key: value pairs, wrap class bodies"
  | terminators => "Insert TERMINATOR after block ends that end a statement"
  | locationBackfill => "Give every synthesized token a location"

/-- The pass with a given name. -/
def ofName? (name : String) : Option Pass :=
  order.find? fun p => p.name == name

@[simp] theorem ofName?_name (p : Pass) : ofName? p.name = some p := by
  cases p <;> decide +kernel

/-- What is reported when a text names no pass. -/
def unknownMessage (name : String) : String :=
  "unknown rewrite pass '" ++ name ++ "'"

/-- Run a pass. -/
def apply : Pass → Tokens → Except Fault Tokens
  | leadingNewlines, tokens => .ok (Statements.dropLeading tokens)
  | closeCalls, tokens => Closers.close Closers.call tokens
  | closeIndexes, tokens => Closers.close Closers.index tokens
  | trailingConditionals, tokens => Conditionals.markTrailing tokens
  | mappingLiterals, tokens => Braces.markMappings tokens
  | terminators, tokens => Statements.terminateBlocks tokens
  | locationBackfill, tokens => .ok (Locations.backfill tokens)

end Pass

end TokenLayout
