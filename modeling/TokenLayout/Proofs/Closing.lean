/-
# TokenLayout.Proofs.Closing -- what closing does to any stream

Where the constructs of a stream do not nest with what is around them, closing still
does one of three things behind each opener (`Closing`, `closeOne_cases`): the closer
that the opener meets at depth zero is retagged; or, for a call, the `)` right before
an `OUTDENT` is; or a generated closer is inserted.  It fails only where an opener
inside stays open.

`ClosesTo` puts these steps together, from the last opener to the first, and what
closing leaves of a stream is shown by induction over it.
-/
import TokenLayout.Proofs.Closers
import TokenLayout.Proofs.Strays

namespace TokenLayout

set_option autoImplicit false

/-- A level forest whose last token is a closer ends with a pair. -/
theorem Forest.Level.exists_last_pair {forest : Forest Token} (level : forest.Level) {p : Token}
    (last : forest.flatten.getLast? = some p) (closes : p.tag.isCloser = true) :
    ∃ (front : Forest Token) (o : Token) (within : Forest Token),
      forest = front.append (.pair o within p .nil) := by
  induction forest with
  | nil => cases last
  | leaf t next ih =>
      rw [Forest.flatten, List.getLast?_cons] at last
      cases behind : next.flatten.getLast? with
      | none =>
          rw [behind] at last
          obtain rfl := Option.some.inj last
          rw [Option.getD_none, level.1.2] at closes
          cases closes
      | some u =>
          rw [behind] at last
          obtain ⟨front, o, within, rfl⟩ := ih level.2 (behind.trans last)
          exact ⟨.leaf t front, o, within, rfl⟩
  | pair o within c next _ ih =>
      have flat : (Forest.pair o within c next).flatten.getLast? =
          some (next.flatten.getLast?.getD c) := by
        simp [List.getLast?_cons, List.getLast?_append]
      rw [flat] at last
      cases behind : next.flatten.getLast? with
      | none =>
          rw [behind] at last
          obtain rfl := Option.some.inj last
          obtain rfl := Forest.flatten_eq_nil_iff.1 (List.getLast?_eq_none_iff.1 behind)
          exact ⟨.nil, o, within, rfl⟩
      | some u =>
          rw [behind] at last
          obtain ⟨front, o', within', rfl⟩ := ih level.2.2 (behind.trans last)
          exact ⟨.pair o within c front, o', within', rfl⟩

theorem Forest.flatten_append_pair (front within : Forest Token) (o p : Token) (rest : Tokens) :
    (front.append (.pair o within p .nil)).flatten ++ rest =
      front.flatten ++ o :: (within.flatten ++ p :: rest) := by
  simp

namespace Closers

variable {construct : Construct}

/-! ## Where a construct stops -/

/-- A construct stops at its own closers only, but for a call, which also stops at an
`OUTDENT` right after a `)` that closes no group. -/
structure Construct.Stops (construct : Construct) : Prop where
  regular : construct.Regular
  dedicated : plain construct.closer ≠ construct.closer
  at_own : ∀ {before after : Tokens} {t : Token}, construct.ends before t after = true →
    t.tag ≠ .outdent → t.tag ∈ construct.own
  at_outdent : ∀ {before after : Tokens} {t : Token}, construct.ends before t after = true →
    t.tag = .outdent → construct.opener = .callStart ∧ ∃ previous earlier,
      before = previous :: earlier ∧ previous.tag = plain construct.closer ∧
        closesGroup 0 earlier = false

theorem call_stops : call.Stops where
  regular := call_regular
  dedicated := by decide
  at_own := by
    intro before after t holds notOutdent
    simp only [call, endsCall] at holds
    split at holds <;> simp_all [call, plain]
  at_outdent := by
    intro before after t holds outdent
    refine ⟨rfl, ?_⟩
    simp only [call, endsCall, outdent] at holds
    cases before with
    | nil => cases holds
    | cons previous earlier =>
        simp only [Bool.and_eq_true, beq_iff_eq, Bool.not_eq_true'] at holds
        exact ⟨previous, earlier, rfl, holds⟩

theorem index_stops : index.Stops where
  regular := index_regular
  dedicated := by decide
  at_own := by
    intro before after t holds _
    simpa [index, endsIndex, plain] using holds
  at_outdent := by
    intro before after t holds outdent
    simp [index, endsIndex, outdent] at holds

namespace Construct.Stops

variable (stops : construct.Stops)
include stops

theorem isCloser : construct.closer.isCloser = true :=
  Tag.isCloser_of_partner? stops.regular.opens stops.regular.partner

theorem isCloser_plain : (plain construct.closer).isCloser = true := by
  have kept : ∀ t : Tag, t.isCloser = true → (plain t).isCloser = true := by
    intro t closes
    cases t <;> exact closes
  exact kept _ stops.isCloser

theorem isCloser_of_mem {t : Tag} (own : t ∈ construct.own) : t.isCloser = true := by
  have either : t = plain construct.closer ∨ t = construct.closer := by
    simpa using own
  rcases either with rfl | rfl
  · exact stops.isCloser_plain
  · exact stops.isCloser

end Construct.Stops

/-! ## One construct -/

/-- What closing one construct does to the stream behind its opener. -/
inductive Closing (construct : Construct) (opener : Token) : (later closed : Tokens) → Prop
  /-- It retags the closer that the opener meets. -/
  | own {inside : Forest Token} {c : Token} {rest : Tokens} (level : inside.Level)
      (tag : c.tag ∈ construct.own) :
      Closing construct opener (inside.flatten ++ c :: rest)
        (inside.flatten ++ c.retag construct.closer :: rest)
  /-- It retags the closer right before the `OUTDENT` that the call meets. -/
  | dedent {front within : Forest Token} {o p c : Token} {rest : Tokens}
      (isCall : construct.opener = .callStart) (outer : front.Level) (inner : within.Level)
      (opens : o.tag.isOpener = true) (group : o.tag ≠ .parenStart)
      (tag : p.tag = plain construct.closer) (outdent : c.tag = .outdent) :
      Closing construct opener (front.flatten ++ o :: (within.flatten ++ p :: c :: rest))
        (front.flatten ++ o :: (within.flatten ++ p.retag construct.closer :: c :: rest))
  /-- It inserts a closer where the enclosing structure ends. -/
  | generated {inside : Forest Token} {next : Tokens} (level : inside.Level)
      (ends : ∀ t ∈ next.head?, t.tag.isCloser = true) :
      Closing construct opener (inside.flatten ++ next)
        (inside.flatten ++ Token.generated construct.closer opener :: next)

/-- A construct whose inside never ends cannot be closed. -/
theorem closeOne_of_open (atClosers : construct.EndsAtClosers) {inside : Forest Token}
    (level : inside.Level) {before rest : Tokens} {opener o : Token}
    (opens : o.tag.isOpener = true) (stays : strays rest = []) :
    closeOne construct before opener (inside.flatten ++ o :: rest) = .error (.ofUnclosed o) := by
  have silent : construct.ends (inside.flatten.reverse ++ opener :: before) o rest = false := by
    cases holds : construct.ends (inside.flatten.reverse ++ opener :: before) o rest with
    | false => rfl
    | true =>
        have closes := atClosers _ _ _ holds
        rw [Tag.isCloser_of_isOpener opens] at closes
        cases closes
  have quiet := level.quiet atClosers (opener :: before) (o :: rest)
  simp only [closeOne, Region.after_opener level quiet silent opens stays]

/-- A call that stops at an `OUTDENT` has the last closer inside it retagged. -/
theorem closing_of_outdent (stops : construct.Stops) {inside : Forest Token}
    (level : inside.Level) {before rest closed : Tokens} {opener c : Token}
    (opens : opener.tag = construct.opener) (outdent : c.tag = .outdent)
    (holds : construct.ends (inside.flatten.reverse ++ opener :: before) c rest = true)
    (done : closeOne construct before opener (inside.flatten ++ c :: rest) = .ok closed) :
    Closing construct opener (inside.flatten ++ c :: rest) closed := by
  obtain ⟨isCall, previous, earlier, back, tag, noGroup⟩ := stops.at_outdent holds outdent
  have closes : previous.tag.isCloser = true := by
    rw [tag]
    exact stops.isCloser_plain
  have last : inside.flatten.getLast? = some previous := by
    rw [← List.head?_reverse]
    cases back' : inside.flatten.reverse with
    | nil =>
        -- the token before the `OUTDENT` is not the call's opener
        rw [back'] at back
        obtain rfl := (List.cons.inj back).1
        rw [opens, Tag.isCloser_of_isOpener stops.regular.opens] at closes
        cases closes
    | cons u left =>
        rw [back'] at back
        exact congrArg some (List.cons.inj back).1
  obtain ⟨front, o, within, rfl⟩ := level.exists_last_pair last closes
  obtain ⟨outer, ⟨⟨starts, -⟩, inner, -⟩⟩ := level.of_append
  have quiet := level.quiet stops.regular.atClosers (opener :: before) (c :: rest)
  have group : o.tag ≠ .parenStart := by
    intro paren
    have past : within.flatten.reverse ++ o :: (front.flatten.reverse ++ opener :: before) =
        earlier := by
      simpa using back
    rw [← past, closesGroup_flatten inner, closesGroup_zero_opener starts, paren] at noGroup
    cases noGroup
  have length : (front.append (.pair o within previous .nil)).flatten.length - 1 =
      (front.flatten ++ o :: within.flatten).length := by
    simp
  have retagged := modify_length_append (front.flatten ++ o :: within.flatten) (c :: rest) previous
    (fun t => t.retag construct.closer)
  simp only [closeOne, Region.after_stop level quiet holds, outdent, if_true, length] at done
  obtain rfl := Except.ok.inj done
  rw [Forest.flatten_append_pair]
  simp only [List.append_assoc, List.cons_append] at retagged
  rw [retagged]
  exact .dedent isCall outer inner starts group tag outdent

theorem closeOne_cases (stops : construct.Stops) {before later closed : Tokens} {opener : Token}
    (opens : opener.tag = construct.opener)
    (done : closeOne construct before opener later = .ok closed) :
    Closing construct opener later closed := by
  have atClosers := stops.regular.atClosers
  cases reach later with
  | closer inside c rest meets =>
      obtain ⟨level, closes, rfl⟩ := meets
      cases holds : construct.ends (inside.flatten.reverse ++ opener :: before) c rest with
      | false =>
          have yields : construct.Yields (inside.flatten.reverse ++ opener :: before)
              (c :: rest) := ⟨closes, holds⟩
          rw [closeOne_of_yields atClosers level yields] at done
          obtain rfl := Except.ok.inj done
          exact .generated level (by simpa using closes)
      | true =>
          by_cases outdent : c.tag = .outdent
          · exact closing_of_outdent stops level opens outdent holds done
          · rw [closeOne_of_stop atClosers level holds outdent] at done
            obtain rfl := Except.ok.inj done
            exact .own level (stops.at_own holds outdent)
  | level forest level flat =>
      have yields : construct.Yields (forest.flatten.reverse ++ opener :: before) [] := trivial
      rw [← List.append_nil forest.flatten] at flat
      rw [flat, closeOne_of_yields atClosers level yields] at done
      obtain rfl := Except.ok.inj done
      rw [flat]
      exact .generated level (by simp)
  | opener forest o rest level opens split stays =>
      rw [split, closeOne_of_open atClosers level opens stays] at done
      cases done

/-- A construct that meets a closer can be closed. -/
theorem exists_closeOne (stops : construct.Stops) {later : Tokens} (some_ : strays later ≠ [])
    (before : Tokens) (opener : Token) :
    ∃ closed, closeOne construct before opener later = .ok closed := by
  obtain ⟨inside, c, rest, level, closes, rfl⟩ := exists_meets some_
  have quiet := level.quiet stops.regular.atClosers (opener :: before) (c :: rest)
  cases holds : construct.ends (inside.flatten.reverse ++ opener :: before) c rest with
  | false => exact ⟨_, by simp only [closeOne, Region.after_closer level quiet holds closes]; rfl⟩
  | true => exact ⟨_, by simp only [closeOne, Region.after_stop level quiet holds]; rfl⟩

namespace Closing

variable {opener : Token} {later closed : Tokens}

/-- Closing a construct takes no stray away. -/
theorem length_strays_le (stops : construct.Stops)
    (closing : Closing construct opener later closed) :
    (strays later).length ≤ (strays closed).length := by
  cases closing with
  | own level tag =>
      have closes := stops.isCloser_of_mem tag
      rw [strays_flatten_append level, strays_flatten_append level, strays_closer closes,
        strays_closer (show (Token.retag _ _).tag.isCloser = true from stops.isCloser)]
      exact Nat.le_refl _
  | dedent isCall outer inner opens group tag outdent =>
      have closes : (plain construct.closer).isCloser = true := stops.isCloser_plain
      rw [← tag] at closes
      rw [strays_flatten_append outer, strays_flatten_append outer, strays_opener opens,
        strays_opener opens, strays_flatten_append inner, strays_flatten_append inner,
        strays_closer closes,
        strays_closer (show (Token.retag _ _).tag.isCloser = true from stops.isCloser)]
      exact Nat.le_refl _
  | generated level ends =>
      rw [strays_flatten_append level, strays_flatten_append level,
        strays_closer (show (Token.generated _ _).tag.isCloser = true from stops.isCloser)]
      exact Nat.le_succ _

/-- Either the closer that the opener meets is its own already, or closing makes one more of
them. -/
theorem self_or_countP_lt (stops : construct.Stops)
    (closing : Closing construct opener later closed) :
    (closed = later ∧ ∃ inside c rest, Meets later inside c rest ∧ c.tag = construct.closer) ∨
      later.countP (·.tag = construct.closer) < closed.countP (·.tag = construct.closer) := by
  cases closing with
  | @own inside c rest level tag =>
      by_cases dedicated : c.tag = construct.closer
      · refine .inl ⟨by rw [← dedicated]; rfl, inside, c, rest, ⟨level, ?_, rfl⟩, dedicated⟩
        exact stops.isCloser_of_mem tag
      · exact .inr (by simp [dedicated])
  | dedent isCall outer inner opens group tag outdent =>
      exact .inr (by simp [List.countP_cons, tag, stops.dedicated])
  | generated level ends =>
      exact .inr (by simp)

end Closing

/-! ## A whole stream -/

/-- A stream and what closing makes of it, from the last opener of a construct to the first. -/
inductive ClosesTo (construct : Construct) : (tokens out : Tokens) → Prop
  | nil : ClosesTo construct [] []
  | other {t : Token} {rest later : Tokens} (other : t.tag ≠ construct.opener)
      (behind : ClosesTo construct rest later) : ClosesTo construct (t :: rest) (t :: later)
  | opener {t : Token} {rest later closed : Tokens} (opens : t.tag = construct.opener)
      (behind : ClosesTo construct rest later) (closing : Closing construct t later closed) :
      ClosesTo construct (t :: rest) (t :: closed)

theorem closesTo_of_closeOnto (stops : construct.Stops) {before tokens out : Tokens}
    (done : closeOnto construct before tokens [] = .ok out) : ClosesTo construct tokens out := by
  induction tokens generalizing before out with
  | nil =>
      obtain rfl := Except.ok.inj done
      exact .nil
  | cons t rest ih =>
      obtain ⟨later, behind, ⟨closed, opens, one, rfl⟩ | ⟨other, rfl⟩⟩ := closeOnto_cons_cases done
      · exact .opener opens (ih behind) (closeOne_cases stops opens one)
      · exact .other other (ih behind)

end Closers

end TokenLayout
