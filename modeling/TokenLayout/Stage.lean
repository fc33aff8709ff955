/-
# TokenLayout.Stage -- stages and chains of stages

A stage is one processing step over a token stream; a chain is a list of stages,
each of which receives what the one before it returns.  The first stage that
fails ends the chain and is named in the error.  Reading notation is the stage
that makes a stream out of text, so it comes first where there is text.
-/
import TokenLayout.Notation.Reader
import TokenLayout.Resolver

namespace TokenLayout

set_option autoImplicit false

/-- Why a chain fails. -/
inductive StageError where
  /-- A stage of no particular kind failed. -/
  | custom (message : String)
  /-- The text is not notation. -/
  | unreadable (error : Notation.ReadError)
  /-- The stage of this name failed. -/
  | failed (stage : String) (fault : Fault)

namespace StageError

/-- The name of the stage that failed, where it has one. -/
def stage? : StageError → Option String
  | custom _ => none
  | unreadable _ => some "notation"
  | failed stage _ => some stage

/-- A failure under the name of its stage. -/
def inStage (stage message : String) : String :=
  "Stage '" ++ stage ++ "' failed: " ++ message

def message : StageError → String
  | custom text => text
  | unreadable e => inStage "notation" e.message
  | failed stage f => inStage stage f.message

end StageError

/-- One step over a token stream. -/
inductive Stage where
  /-- A single pass. -/
  | pass (p : Pass)
  /-- All passes of a resolver. -/
  | resolve (r : Resolver)
  /-- The balance check, which passes the stream on. -/
  | balance
  /-- A step that always fails. -/
  | fail (message : String)

namespace Stage

def run : Stage → Tokens → Except StageError Tokens
  | pass p, tokens => (p.apply tokens).mapError (.failed p.name)
  | resolve r, tokens => (r.run tokens).mapError (.failed "rewrite")
  | balance, tokens => ((ensureBalance tokens).map fun _ => tokens).mapError (.failed "balance")
  | fail message, _ => .error (.custom message)

end Stage

/-- Stages in order. -/
abbrev Chain := List Stage

namespace Chain

/-- Run each stage on what the one before it returns. -/
def run (chain : Chain) (tokens : Tokens) : Except StageError Tokens :=
  chain.foldlM (fun ts s => s.run ts) tokens

/-- All passes and the balance check as one stage. -/
def atOnce : Chain := [.resolve .full]

/-- One stage per pass of a resolver, and the balance check if the resolver makes
it.  It returns what the resolver returns, but a failure names its pass. -/
def passByPass (r : Resolver) : Chain :=
  r.passes.map .pass ++ (if r.verifies then [.balance] else [])

/-- Read notation. -/
def read (text : String) : Except StageError Tokens :=
  (Notation.read text).mapError .unreadable

/-- Read notation and run a chain on it. -/
def runText (chain : Chain) (text : String) : Except StageError Tokens := do
  chain.run (← read text)

end Chain

end TokenLayout
