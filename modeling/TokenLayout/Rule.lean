/-
# TokenLayout.Rule -- walks driven by rules

The scan of a stream takes any function for its visits.  Rules are such functions
given as data: the edits that a visit makes in practice, with the step behind
them, so that a scan can be asked for from outside.

A rule says what to do at tokens of one tag, or at any token, how often it may
be used, and how far to move after it.  A walk visits a stream and uses at each
token the first rule that applies; where none applies it goes on to the next
token.  Rules may go back or stay, so such a walk has a limit on its visits.
Where no rule is ever used up it is a scan by a plain visit (`Rule.walk_eq_scan`).
-/
import TokenLayout.Cursor

namespace TokenLayout

set_option autoImplicit false

/-- What a rule does at a token. -/
inductive RuleAction where
  /-- Insert a generated token after it. -/
  | insertAfter (tag : Tag)
  /-- Insert an explicit token before it. -/
  | insertBefore (tag : Tag)
  | remove
  | retag (tag : Tag)
  | fail
  | keep

/-- A rule. -/
structure Rule where
  /-- The tag it applies to; without one it applies to every token. -/
  tag : Option Tag
  /-- How often it may still be used; without a number, any number of times. -/
  uses : Option Nat
  action : RuleAction
  step : Int

namespace Rule

def applies (r : Rule) (t : Token) : Bool :=
  r.uses != some 0 && (r.tag.isNone || r.tag == some t.tag)

/-- The first rule that applies, and the rules after one use of it. -/
def choose (t : Token) : List Rule → Option (Rule × List Rule)
  | [] => none
  | r :: rules =>
      if r.applies t then some (r, { r with uses := r.uses.map (· - 1) } :: rules)
      else (choose t rules).map fun p => (p.1, r :: p.2)

/-- What stands from the place of a token on once a rule is used there. -/
def edit (action : RuleAction) (t : Token) (after : Tokens) : Except Fault Tokens :=
  match action with
  | .insertAfter tag => .ok (t :: Token.generated tag t :: after)
  | .insertBefore tag => .ok (Token.explicit tag t :: t :: after)
  | .remove => .ok after
  | .retag tag => .ok (t.retag tag :: after)
  | .fail => .error (.ofUnbalanced t)
  | .keep => .ok (t :: after)

/-- The rules as used so far, and the indexes visited, last one first. -/
structure Record where
  rules : List Rule
  visited : List Nat

/-- Visit a token by the rules. -/
def visit : Cursor.Visit Record Fault := fun record before t after =>
  let visited := before.length :: record.visited
  match choose t record.rules with
  | none => (⟨record.rules, visited⟩, Cursor.keep before t after)
  | some (r, rules) =>
      (⟨rules, visited⟩, (edit r.action t after).map fun rest => (⟨before, rest⟩, r.step))

/-- Walk a stream by rules, with a limit on the number of visits. -/
def walk (rules : List Rule) (limit : Nat) (tokens : Tokens) : Cursor.Walk Record Fault :=
  Cursor.walk visit limit ⟨rules, []⟩ (Cursor.start tokens)

end Rule

end TokenLayout
