/-
# TokenLayout.Resolver -- running the passes

A resolver runs the passes in order, up to a last one on request.  To stop early
leaves the stream as that pass left it, which shows what a single pass does.
Balance is verified only after all passes: before the last of them the closers
are not all in place.
-/
import TokenLayout.Pass

namespace TokenLayout

set_option autoImplicit false

/-- Which passes run and whether balance is verified after all of them. -/
structure Resolver where
  stopAfter : Option Pass := none
  verifyBalance : Bool := true
  deriving DecidableEq

namespace Resolver

/-- All passes, and then the balance check. -/
def full : Resolver := ⟨none, true⟩

/-- The passes a resolver runs, in order. -/
def passes (r : Resolver) : List Pass :=
  match r.stopAfter with
  | some last => Pass.order.take (Pass.order.idxOf last + 1)
  | none => Pass.order

/-- Balance is verified: it is asked for, and no pass is left out. -/
def verifies (r : Resolver) : Bool :=
  r.verifyBalance && r.passes.length == Pass.order.length

/-- Run passes in order, up to the first that fails. -/
def runPasses (passes : List Pass) (tokens : Tokens) : Except Fault Tokens :=
  passes.foldlM (fun ts p => p.apply ts) tokens

/-- Resolve a stream. -/
def run (r : Resolver) (tokens : Tokens) : Except Fault Tokens := do
  let resolved ← runPasses r.passes tokens
  if r.verifies then
    ensureBalance resolved
  return resolved

end Resolver

end TokenLayout
