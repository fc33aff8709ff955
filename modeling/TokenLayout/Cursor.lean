/-
# TokenLayout.Cursor -- walking a stream while it is edited

A walk visits a stream from its start.  Each visit may edit the stream anywhere
and says how far to move: one place to go on, two or more to jump over tokens
just inserted, none to look again at what now stands here, a negative number to
go back.  Moves are clamped at the start; a move to or past the end ends the
walk, so insertion at the end prolongs it and removal shortens it.

A walk may go on for ever, so it is given a budget of visits and says when it
was cut off.  Every pass walks with a budget that its walk cannot exhaust.
-/
import TokenLayout.Fault

namespace TokenLayout

set_option autoImplicit false

/-- A place in a stream: the tokens before it, nearest first, and the tokens from
it on. -/
structure Cursor where
  before : Tokens
  rest : Tokens
  deriving DecidableEq

namespace Cursor

/-- The start of a stream. -/
def start (tokens : Tokens) : Cursor := ⟨[], tokens⟩

/-- The stream the cursor stands in. -/
def tokens (c : Cursor) : Tokens :=
  c.before.reverse ++ c.rest

/-- The number of tokens before the cursor. -/
def index (c : Cursor) : Nat :=
  c.before.length

/-- `n` places forward, or to the end. -/
def forward (before : Tokens) : Nat → Tokens → Cursor
  | _, [] => ⟨before, []⟩
  | 0, t :: rest => ⟨before, t :: rest⟩
  | n + 1, t :: rest => forward (t :: before) n rest

/-- `n` places back, or to the start. -/
def backward (rest : Tokens) : Nat → Tokens → Cursor
  | _, [] => ⟨[], rest⟩
  | 0, t :: before => ⟨t :: before, rest⟩
  | n + 1, t :: before => backward (t :: rest) n before

/-- A signed number of places, forward if positive. -/
def move (c : Cursor) : Int → Cursor
  | .ofNat n => forward c.before n c.rest
  | .negSucc n => backward c.rest (n + 1) c.before

/-- A visit at a token: given a state, the tokens before it, the token and the
tokens after it, the new state and either an error or the edited stream, with the
cursor at the place from which to move, and the move. -/
abbrev Visit (σ ε : Type) := σ → Tokens → Token → Tokens → σ × Except ε (Cursor × Int)

/-- How a walk ended. -/
inductive Ending (ε : Type) where
  /-- The cursor passed the end of the stream. -/
  | finished
  /-- A visit failed. -/
  | failed (error : ε)
  /-- The budget was used up. -/
  | cutOff

/-- A walk: its last state, the stream it left, and how it ended. -/
structure Walk (σ ε : Type) where
  state : σ
  tokens : Tokens
  ending : Ending ε

/-- Walk on from a cursor with a budget of visits. -/
def walk {σ ε : Type} (visit : Visit σ ε) : Nat → σ → Cursor → Walk σ ε
  | _, s, ⟨before, []⟩ => ⟨s, before.reverse, .finished⟩
  | 0, s, ⟨before, t :: after⟩ => ⟨s, before.reverse ++ t :: after, .cutOff⟩
  | budget + 1, s, ⟨before, t :: after⟩ =>
      match visit s before t after with
      | (s', .error e) => ⟨s', before.reverse ++ t :: after, .failed e⟩
      | (s', .ok (c, step)) => walk visit budget s' (c.move step)

/-- A visit that keeps no state. -/
abbrev PlainVisit (ε : Type) := Tokens → Token → Tokens → Except ε (Cursor × Int)

namespace PlainVisit

/-- A plain visit under any state, which it leaves alone. -/
def stateful {σ ε : Type} (visit : PlainVisit ε) : Visit σ ε :=
  fun s before t after => (s, visit before t after)

/-- A plain visit that also notes down the indexes visited, last one first. -/
def noting {ε : Type} (visit : PlainVisit ε) : Visit (List Nat) ε :=
  fun visited before t after => (before.length :: visited, visit before t after)

end PlainVisit

/-- Walk a whole stream with a budget of visits and return the stream as edited. -/
def scan {ε : Type} (visit : PlainVisit ε) (budget : Nat) (tokens : Tokens) : Except ε Tokens :=
  let done := walk visit.stateful budget () (start tokens)
  match done.ending with
  | .failed e => .error e
  | _ => .ok done.tokens

/-- Leave the token as it is and go on. -/
def keep {ε : Type} (before : Tokens) (t : Token) (after : Tokens) : Except ε (Cursor × Int) :=
  .ok (⟨before, t :: after⟩, 1)

end Cursor

end TokenLayout
