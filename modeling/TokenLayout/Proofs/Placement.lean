/-
# TokenLayout.Proofs.Placement -- where a token without a location is put

The last pass puts a token where its neighbours are, and the neighbour before it may have
received its location a step earlier.  So a location is handed on along a run of synthesized
tokens, and where a token of the run is put is told by the stream as it was: by the nearest
token before it that needed nothing (`anchor?`), or, for a `{`, by the token after it.

A `{` put where the next token starts hands nothing on, for that token has a location of its
own.  This is why what is handed on need only be right in front of a token without one
(`getElem?_settleFrom`).

Main statement: `getElem?_backfill`.
-/
import TokenLayout.Proofs.Passes

namespace TokenLayout.Locations

set_option autoImplicit false

instance (t : Token) : Decidable (Placed t) := by
  unfold Placed
  infer_instance

/-- The nearest of these tokens, nearest first, that is read from source or has a location. -/
def anchor? (before : Tokens) : Option Token :=
  before.find? fun t => Placed t

/-- Where the anchor of a place ends: the start of the source, if there is none before the place or
one without a location. -/
def anchorEnd (before : Tokens) : Position :=
  reach ((anchor? before).bind Token.location)

/-- Where a token of this tag is put, between the tokens before it, nearest first, and the next
one: a `{` where the next token starts, if that has a location, and all else where the anchor
ends. -/
def spot (before : Tokens) (tag : Tag) (next : Option Token) : Position :=
  match tag, next.bind Token.location with
  | .mappingStart, some l => l.start
  | _, _ => anchorEnd before

/-- A token with a location: its own, or that of its spot. -/
def placed (before : Tokens) (next : Option Token) (t : Token) : Token :=
  if Placed t then t else t.locate (.point (spot before t.tag next))

/-! ## What is handed on -/

theorem anchorEnd_placed {t : Token} (done : Placed t) (before : Tokens) :
    anchorEnd (t :: before) = reach t.location := by
  have found : anchor? (t :: before) = some t := by simp [anchor?, done]
  rw [anchorEnd, found, Option.bind_some]

theorem anchorEnd_unplaced {t : Token} (needed : ¬Placed t) (before : Tokens) :
    anchorEnd (t :: before) = anchorEnd before := by
  simp [anchorEnd, anchor?, needed]

theorem settle_unplaced {t : Token} (needed : ¬Placed t) (previous next : Option Location) :
    settle previous t next = t.locate (.point (place t.tag previous next)) := by
  unfold settle
  rw [if_neg]
  simpa [Placed, Token.isSynthesized] using needed

/-- A token is put in its spot if the neighbour before it reaches as far as the anchor. -/
theorem place_eq_spot {before : Tokens} {previous : Option Location}
    (agree : reach previous = anchorEnd before) (tag : Tag) (next : Option Token) :
    place tag previous (next.bind Token.location) = spot before tag next := by
  unfold spot
  rw [← agree]
  unfold place reach
  generalize next.bind Token.location = there
  cases tag <;> cases there <;> cases previous <;> rfl

/-- In front of a token without a location all are put alike. -/
theorem spot_unlocated {next : Option Token} (unlocated : next.bind Token.location = none)
    (before : Tokens) (tag : Tag) : spot before tag next = anchorEnd before := by
  unfold spot
  rw [unlocated]
  split
  · rename_i none
    cases none
  · rfl

/-- One step: the token is placed, and if the next one has no location, then it is told what its
anchor would tell it. -/
theorem settle_eq_placed {before : Tokens} {previous : Option Location} {t : Token}
    (agree : t.location = none → reach previous = anchorEnd before) (next : Option Token) :
    settle previous t (next.bind Token.location) = placed before next t ∧
      (next.bind Token.location = none →
        reach (settle previous t (next.bind Token.location)).location =
          anchorEnd (t :: before)) := by
  by_cases done : Placed t
  · rw [settle_eq_self done, placed, if_pos done, anchorEnd_placed done]
    exact ⟨rfl, fun _ => rfl⟩
  · have bare : t.location = none := by
      simpa [Placed] using fun located => done (.inl located)
    have put := place_eq_spot (agree bare) t.tag next
    rw [settle_unplaced done, placed, if_neg done, anchorEnd_unplaced done, put]
    exact ⟨rfl, fun unlocated => spot_unlocated unlocated before t.tag⟩

/-- **Token by token.**  The induction is along the stream, and what is handed on at the place it
has come to is right unless the next token has a location and does not ask. -/
theorem getElem?_settleFrom {before rest : Tokens} {previous : Option Location}
    (agree : rest.head?.bind Token.location = none → reach previous = anchorEnd before)
    (index : Nat) :
    (settleFrom previous rest)[index]? =
      rest[index]?.map (placed ((rest.take index).reverse ++ before) rest[index + 1]?) := by
  induction rest generalizing before previous index with
  | nil => rfl
  | cons t rest ih =>
      obtain ⟨here, onward⟩ := settle_eq_placed agree rest.head?
      cases index with
      | zero =>
          rw [List.head?_eq_getElem?] at here
          simp [settleFrom, here, List.head?_eq_getElem?]
      | succ index =>
          have later := ih onward index
          simpa [settleFrom] using later

/-- **Where each token is put, in terms of the stream as it was.**  A token that is read from
source or has a location stays as it is, and any other one changes its location only. -/
theorem getElem?_backfill (stream : Tokens) (index : Nat) :
    (backfill stream)[index]? =
      stream[index]?.map fun t =>
        if Placed t then t
        else t.locate (.point (spot (stream.take index).reverse t.tag stream[index + 1]?)) := by
  have start : stream.head?.bind Token.location = none → reach none = anchorEnd [] := fun _ => rfl
  have each := getElem?_settleFrom start index
  rw [List.append_nil] at each
  exact each

/-- Of two `{` in a run of synthesized tokens only the last one is put where the next token
starts. -/
example :
    let before := Token.onFirstLine .identifier 4
    let brace := Token.generated .mappingStart before
    (backfill [before, brace, .generated .indent before, brace, .onFirstLine .identifier 7]).map
        Token.location =
      [some (.point ⟨0, 4⟩), some (.point ⟨0, 4⟩), some (.point ⟨0, 4⟩), some (.point ⟨0, 7⟩),
        some (.point ⟨0, 7⟩)] := by
  decide

end TokenLayout.Locations
