/-
# TokenLayout.Proofs.Shut -- every construct is closed

A stream is `Shut` when behind every opener of a construct the first closer at depth
zero is one that fits it.  Closing one construct neither disturbs those further in
nor takes a closer from those beyond it, so a stream stays shut from its end to its
start (`shut_of_closesTo`).

A call that the `)` before an `OUTDENT` closes does not meet its closer, though: that
`)` closes an opener inside the call, and what the call meets is the `OUTDENT` (main
statement `close_call_shut`).  Where this happens a second run inserts another
closer, and nowhere else (`closeOnto_eq_self_iff`).
-/
import TokenLayout.Proofs.Closing

namespace TokenLayout.Closers

set_option autoImplicit false

variable {construct : Construct}

/-! ## Shut streams -/

/-- Behind every opener of a construct in the stream, what it meets at depth zero `fits`. -/
def Shut (construct : Construct) (fits : Forest Token → Token → Prop) : Tokens → Prop
  | [] => True
  | t :: rest =>
      (t.tag = construct.opener →
        ∃ inside closer later, Meets rest inside closer later ∧ fits inside closer) ∧
        Shut construct fits rest

variable {fits : Forest Token → Token → Prop}

theorem shut_iff {tokens : Tokens} : Shut construct fits tokens ↔
    ∀ front opener after, tokens = front ++ opener :: after → opener.tag = construct.opener →
      ∃ inside closer rest, Meets after inside closer rest ∧ fits inside closer := by
  induction tokens with
  | nil => simp [Shut]
  | cons t rest ih =>
      rw [Shut, ih]
      constructor
      · rintro ⟨first, later⟩ front opener after split opens
        cases front with
        | nil =>
            obtain ⟨rfl, rfl⟩ := List.cons.inj split
            exact first opens
        | cons u front => exact later front opener after (List.cons.inj split).2 opens
      · intro all
        exact ⟨all [] t rest rfl, fun front opener after split opens =>
          all (t :: front) opener after (by rw [split]; rfl) opens⟩

theorem Shut.of_append {left right : Tokens} (shut : Shut construct fits (left ++ right)) :
    Shut construct fits right := by
  induction left with
  | nil => exact shut
  | cons t left ih => exact ih shut.2

/-- An opener that stays open is of no construct that is shut. -/
theorem Shut.not_openIn {tokens : Tokens} (shut : Shut construct fits tokens) {o : Token}
    (open_ : OpenIn tokens o) : o.tag ≠ construct.opener := by
  intro same
  obtain ⟨front, rest, split, -, stays⟩ := open_
  obtain ⟨inside, closer, beyond, meets, -⟩ := shut_iff.1 shut front o rest split same
  rw [meets.strays] at stays
  cases stays

/-- The constructs of a level forest are shut by their own pairs. -/
theorem shut_flatten_append (stops : construct.Stops) {forest : Forest Token}
    (level : forest.Level) (rest : Tokens) :
    Shut construct fits (forest.flatten ++ rest) ↔
      (∀ o inside c, forest.Holds o inside c → o.tag = construct.opener → fits inside c) ∧
        Shut construct fits rest := by
  have other : ∀ {t : Token}, t.tag.isOpener = false → t.tag ≠ construct.opener := by
    intro t notOpener tag
    rw [tag, stops.regular.opens] at notOpener
    cases notOpener
  induction forest generalizing rest with
  | nil => simp [Forest.Holds]
  | leaf t next ih =>
      simp only [Forest.flatten, List.cons_append, Shut, ih level.2]
      simp [Forest.Holds, other level.1.1]
  | pair o within c next ihWithin ihNext =>
      obtain ⟨⟨opens, closes⟩, inner, outer⟩ := level
      have meets : Meets (within.flatten ++ c :: (next.flatten ++ rest)) within c
          (next.flatten ++ rest) := ⟨inner, closes, rfl⟩
      have first : (∃ inside closer later, Meets (within.flatten ++ c :: (next.flatten ++ rest))
          inside closer later ∧ fits inside closer) ↔ fits within c := by
        constructor
        · rintro ⟨inside, closer, later, meets', fit⟩
          obtain ⟨rfl, rfl, -⟩ := meets.unique meets'
          exact fit
        · exact fun fit => ⟨within, c, _, meets, fit⟩
      simp only [Forest.flatten, List.cons_append, List.append_assoc, Shut, first, ihWithin inner,
        ihNext outer]
      have notConstruct := other (Tag.isOpener_of_isCloser closes)
      constructor
      · rintro ⟨own, deeper, -, later, shut⟩
        refine ⟨?_, shut⟩
        rintro o' inside c' (⟨rfl, rfl, rfl⟩ | held | held) tag
        · exact own tag
        · exact deeper _ _ _ held tag
        · exact later _ _ _ held tag
      · rintro ⟨all, shut⟩
        exact ⟨all _ _ _ (.inl ⟨rfl, rfl, rfl⟩), fun _ _ _ held => all _ _ _ (.inr (.inl held)),
          fun tag => absurd tag notConstruct, fun _ _ _ held => all _ _ _ (.inr (.inr held)), shut⟩

/-- A closer hides no construct behind it. -/
theorem shut_cons_closer (stops : construct.Stops) {t : Token} (closes : t.tag.isCloser = true)
    {rest : Tokens} : Shut construct fits (t :: rest) ↔ Shut construct fits rest := by
  have notConstruct : t.tag ≠ construct.opener := by
    intro tag
    rw [tag, Tag.isCloser_of_isOpener stops.regular.opens] at closes
    cases closes
  simp [Shut, notConstruct]

/-- A closer may stand behind a level forest or not. -/
theorem shut_put_iff (stops : construct.Stops) {inside : Forest Token} (level : inside.Level)
    {t : Token} (closes : t.tag.isCloser = true) {rest : Tokens} :
    Shut construct fits (inside.flatten ++ t :: rest) ↔
      Shut construct fits (inside.flatten ++ rest) := by
  rw [shut_flatten_append stops level, shut_flatten_append stops level,
    shut_cons_closer stops closes]

/-- The last token inside a call is a `CALL_END` of something that is neither a group nor a
call, and an `OUTDENT` follows. -/
def ByDedent (inside : Forest Token) (closer : Token) : Prop :=
  closer.tag = .outdent ∧ ∃ (front : Forest Token) (o : Token) (within : Forest Token) (p : Token),
    inside = front.append (.pair o within p .nil) ∧ p.tag = .callEnd ∧ o.tag ≠ .parenStart ∧
      o.tag ≠ .callStart

/-- How closing leaves a construct: with its own closer, or a call by the one before a
dedent. -/
def Construct.Fits (construct : Construct) (inside : Forest Token) (closer : Token) : Prop :=
  closer.tag = construct.closer ∨ (construct.opener = .callStart ∧ ByDedent inside closer)

/-- Closing one construct keeps the later ones shut, and shuts it. -/
theorem Closing.shut (stops : construct.Stops) {opener : Token} {later closed : Tokens}
    (closing : Closing construct opener later closed)
    (shut : Shut construct construct.Fits later) :
    Shut construct construct.Fits closed ∧
      ∃ inside closer rest, Meets closed inside closer rest ∧ construct.Fits inside closer := by
  cases closing with
  | @own inside c rest level tag =>
      rw [shut_put_iff stops level (stops.isCloser_of_mem tag)] at shut
      exact ⟨(shut_put_iff stops level stops.isCloser).2 shut, inside, _, rest,
        ⟨level, stops.isCloser, rfl⟩, .inl rfl⟩
  | @dedent front within o p c rest isCall outer inner opens group tag outdent =>
      have closes : c.tag.isCloser = true := by
        rw [outdent]
        decide
      have ends : p.tag.isCloser = true := by
        rw [tag]
        exact stops.isCloser_plain
      have level : ∀ q : Token, q.tag.isCloser = true →
          (front.append (.pair o within q .nil)).Level :=
        fun q ends => Forest.nests_append outer ⟨⟨opens, ends⟩, inner, trivial⟩
      rw [← Forest.flatten_append_pair] at shut ⊢
      rw [shut_flatten_append stops (level p ends), shut_cons_closer stops closes] at shut
      obtain ⟨held, shut⟩ := shut
      -- the opener of the retagged closer is no call: a `)` does not close one that is shut
      have other : o.tag ≠ construct.opener := by
        intro same
        rcases held o within p (Forest.holds_append.2 (.inr (.inl ⟨rfl, rfl, rfl⟩))) same with
          own | ⟨-, dedent, -⟩
        · exact stops.dedicated (tag.symm.trans own)
        · exact stops.regular.notOutdent (by simp [← tag, dedent])
      have notCall : o.tag ≠ .callStart := isCall ▸ other
      have isCallEnd : construct.closer = .callEnd := by
        have partner := stops.regular.partner
        rw [isCall] at partner
        exact (Option.some.inj partner).symm
      have level' := level (p.retag construct.closer) stops.isCloser
      refine ⟨?_, _, c, rest, ⟨level', closes, rfl⟩,
        .inr ⟨isCall, outdent, front, o, within, _, rfl, isCallEnd, group, notCall⟩⟩
      rw [shut_flatten_append stops level', shut_cons_closer stops closes]
      refine ⟨?_, shut⟩
      intro o' inside c' pair tag'
      rcases Forest.holds_append.1 pair with first | ⟨rfl, -, -⟩ | deeper | none
      · exact held o' inside c' (Forest.holds_append.2 (.inl first)) tag'
      · exact absurd tag' other
      · exact held o' inside c' (Forest.holds_append.2 (.inr (.inr (.inl deeper)))) tag'
      · cases none
  | @generated inside next level ends =>
      exact ⟨(shut_put_iff stops level stops.isCloser).2 shut, inside, _, next,
        ⟨level, stops.isCloser, rfl⟩, .inl rfl⟩

/-- **Closing shuts every construct of a stream.** -/
theorem shut_of_closesTo (stops : construct.Stops) {tokens out : Tokens}
    (closes : ClosesTo construct tokens out) : Shut construct construct.Fits out := by
  induction closes with
  | nil => trivial
  | other other _ ih => exact ⟨fun opens => absurd opens other, ih⟩
  | opener opens _ closing ih =>
      obtain ⟨shut, fits⟩ := closing.shut stops ih
      exact ⟨fun _ => fits, shut⟩

/-! ## A second run -/

/-- A stream in which every construct is shut can be closed, and loses no stray. -/
theorem exists_closeOnto (stops : construct.Stops) {tokens : Tokens}
    (shut : Shut construct fits tokens) (before : Tokens) :
    ∃ out, closeOnto construct before tokens [] = .ok out ∧
      (strays tokens).length ≤ (strays out).length := by
  induction tokens generalizing before with
  | nil => exact ⟨[], rfl, Nat.le_refl _⟩
  | cons t rest ih =>
      obtain ⟨first, shut⟩ := shut
      obtain ⟨later, behind, kept⟩ := ih shut (t :: before)
      by_cases opens : t.tag = construct.opener
      · obtain ⟨inside, closer, after, meets, -⟩ := first opens
        have some_ : strays later ≠ [] := by
          intro none
          rw [none, meets.strays] at kept
          simp at kept
        obtain ⟨closed, one⟩ := exists_closeOne stops some_ before t
        have longer := (closeOne_cases stops opens one).length_strays_le stops
        exact ⟨t :: closed, closeOnto_cons_opener opens behind one,
          length_strays_cons_le (Nat.le_trans kept longer) t⟩
      · exact ⟨t :: later, closeOnto_cons_other opens behind, length_strays_cons_le kept t⟩

/-- Closing makes more closers of the kind, or it changes nothing and every construct meets
its own. -/
theorem ClosesTo.self_or_countP_lt (stops : construct.Stops) {tokens out : Tokens}
    (closes : ClosesTo construct tokens out) :
    (out = tokens ∧ Shut construct (fun _ closer => closer.tag = construct.closer) tokens) ∨
      tokens.countP (·.tag = construct.closer) < out.countP (·.tag = construct.closer) := by
  induction closes with
  | nil => exact .inl ⟨rfl, trivial⟩
  | other other _ ih =>
      simp only [List.countP_cons, Nat.add_lt_add_iff_right]
      rcases ih with ⟨rfl, shut⟩ | more
      · exact .inl ⟨rfl, fun opens => absurd opens other, shut⟩
      · exact .inr more
  | opener opens _ closing ih =>
      simp only [List.countP_cons, Nat.add_lt_add_iff_right]
      rcases ih, closing.self_or_countP_lt stops with ⟨⟨rfl, shut⟩ | more, ⟨rfl, meets⟩ | more'⟩
      · exact .inl ⟨rfl, fun _ => meets, shut⟩
      · exact .inr more'
      · exact .inr more
      · exact .inr (Nat.lt_trans more more')

/-- **Closing changes nothing just if every construct meets its own closer.** -/
theorem closeOnto_eq_self_iff (stops : construct.Stops) {before tokens : Tokens} :
    closeOnto construct before tokens [] = .ok tokens ↔
      Shut construct (fun _ closer => closer.tag = construct.closer) tokens := by
  constructor
  · intro done
    rcases (closesTo_of_closeOnto stops done).self_or_countP_lt stops with ⟨-, shut⟩ | more
    · exact shut
    · exact absurd more (Nat.lt_irrefl _)
  · intro shut
    induction tokens generalizing before with
    | nil => rfl
    | cons t rest ih =>
        obtain ⟨first, shut⟩ := shut
        have behind : closeOnto construct (t :: before) rest [] = .ok rest := ih shut
        by_cases opens : t.tag = construct.opener
        · obtain ⟨inside, closer, after, ⟨level, -, rfl⟩, dedicated⟩ := first opens
          have own : closer.tag ∈ construct.own := by simp [dedicated]
          have notOutdent : closer.tag ≠ .outdent :=
            fun outdent => stops.regular.notOutdent (outdent ▸ own)
          have ends : construct.ends (inside.flatten.reverse ++ t :: before) closer after = true :=
            stops.regular.ends_own own
          have one := closeOne_of_stop stops.regular.atClosers level ends notOutdent
          have same : closer.retag construct.closer = closer := by
            rw [← dedicated]
            rfl
          rw [same] at one
          exact closeOnto_cons_opener opens behind one
        · exact closeOnto_cons_other opens behind

/-! ## From opener to closer -/

/-- Behind this much of the stream a construct opens, and this closer is the first one at depth
zero behind its opener. -/
def Span (construct : Construct) (tokens front : Tokens) (inside : Forest Token) (closer : Token)
    (rest : Tokens) : Prop :=
  ∃ opener after, tokens = front ++ opener :: after ∧ opener.tag = construct.opener ∧
    Meets after inside closer rest

/-- Two constructs do not share a closer. -/
theorem Span.front_eq (stops : construct.Stops) {tokens front front' rest : Tokens}
    {inside inside' : Forest Token} {closer closer' : Token}
    (span : Span construct tokens front inside closer rest)
    (span' : Span construct tokens front' inside' closer' rest) : front = front' := by
  obtain ⟨o, after, split, opens, meets⟩ := span
  obtain ⟨o', after', split', opens', meets'⟩ := span'
  have opener : ∀ {t : Token}, t.tag = construct.opener → t.tag.isOpener = true := by
    intro t tag
    rw [tag]
    exact stops.regular.opens
  exact eq_of_meets (split.symm.trans split') (opener opens) (opener opens') meets meets'

/-- Where every construct is shut, the first closers are as wanted just if all spans end so. -/
theorem Shut.iff_span {wanted : Token → Prop} {tokens : Tokens}
    (shut : Shut construct fits tokens) :
    Shut construct (fun _ closer => wanted closer) tokens ↔
      ∀ front inside closer rest, Span construct tokens front inside closer rest →
        wanted closer := by
  rw [shut_iff] at shut ⊢
  constructor
  · rintro all front inside closer rest ⟨opener, after, split, opens, meets⟩
    obtain ⟨inside', closer', rest', meets', want⟩ := all front opener after split opens
    obtain ⟨-, rfl, -⟩ := meets.unique meets'
    exact want
  · intro all front opener after split opens
    obtain ⟨inside, closer, rest, meets, -⟩ := shut front opener after split opens
    exact ⟨inside, closer, rest, meets, all _ _ _ _ ⟨opener, after, split, opens, meets⟩⟩

/-- A stream in which every construct is shut closes again, and comes back as it is just if each
construct ends with its own closer. -/
theorem exists_close_again (stops : construct.Stops) {tokens : Tokens}
    (shut : Shut construct fits tokens) :
    ∃ again, close construct tokens = .ok again ∧
      (again = tokens ↔ ∀ front inside closer rest,
        Span construct tokens front inside closer rest → closer.tag = construct.closer) := by
  obtain ⟨again, done, -⟩ := exists_closeOnto stops shut []
  refine ⟨again, done, ?_⟩
  have unchanged : closeOnto construct [] tokens [] = .ok tokens ↔ _ := closeOnto_eq_self_iff stops
  rw [← shut.iff_span, ← unchanged, done]
  constructor
  · rintro rfl
    rfl
  · exact Except.ok.inj

/-- **Closing calls closes every call.**  What a call meets first at depth zero is a `CALL_END`, or
the `OUTDENT` that a `CALL_END` of something else stands before; no two calls meet the same closer;
and closing them again changes nothing, but where a call meets an `OUTDENT`. -/
theorem close_call_shut (tokens out : Tokens) (done : close call tokens = .ok out) :
    (∀ front opener after, out = front ++ opener :: after → opener.tag = .callStart →
        ∃ inside closer rest, Meets after inside closer rest ∧
          (closer.tag = .callEnd ∨ ByDedent inside closer)) ∧
      (∀ front front' inside inside' closer closer' rest,
        Span call out front inside closer rest → Span call out front' inside' closer' rest →
          front = front') ∧
      ∃ again, close call out = .ok again ∧
        (again = out ↔ ∀ front inside closer rest,
          Span call out front inside closer rest → closer.tag = .callEnd) := by
  have shut := shut_of_closesTo call_stops (closesTo_of_closeOnto call_stops done)
  refine ⟨?_, fun _ _ _ _ _ _ _ span span' => span.front_eq call_stops span',
    exists_close_again call_stops shut⟩
  intro front opener after split opens
  obtain ⟨inside, closer, rest, meets, own | ⟨-, dedent⟩⟩ :=
    shut_iff.1 shut front opener after split opens
  · exact ⟨inside, closer, rest, meets, .inl own⟩
  · exact ⟨inside, closer, rest, meets, .inr dedent⟩

/-- A call around a function whose block ends with this closer and a dedent. -/
def dedentedCall (closer : Tag) : Tokens :=
  [.bare .callStart, .bare .arrow, .bare .indent, .bare .identifier,
   (Token.bare .parenEnd).retag closer, .bare .outdent]

theorem close_call_shut_dedentedCall :
    close call (dedentedCall .parenEnd) = .ok (dedentedCall .callEnd) ∧
      ∃ again, close call (dedentedCall .callEnd) = .ok again ∧
        (again = dedentedCall .callEnd ↔ ∀ front inside closer rest,
          Span call (dedentedCall .callEnd) front inside closer rest → closer.tag = .callEnd) :=
  ⟨rfl, (close_call_shut (dedentedCall .parenEnd) (dedentedCall .callEnd) rfl).2.2⟩

/-- The `)` before the dedent closes the block, so the call meets the `OUTDENT`, and a second run
puts another closer before that. -/
theorem not_shut_dedentedCall :
    (¬∀ tokens out, close call tokens = .ok out →
        ∀ front opener after, out = front ++ opener :: after → opener.tag = .callStart →
          ∃ inside closer rest, Meets after inside closer rest ∧ closer.tag = .callEnd) ∧
      ¬∀ tokens out, close call tokens = .ok out → close call out = .ok out := by
  have done : close call (dedentedCall .parenEnd) = .ok (dedentedCall .callEnd) := rfl
  have meets : Meets (dedentedCall .callEnd).tail
      (.leaf (.bare .arrow) (.pair (.bare .indent) (.leaf (.bare .identifier) .nil)
        ((Token.bare .parenEnd).retag .callEnd) .nil)) (.bare .outdent) [] :=
    ⟨⟨⟨rfl, rfl⟩, ⟨rfl, rfl⟩, ⟨⟨rfl, rfl⟩, trivial⟩, trivial⟩, rfl, rfl⟩
  constructor
  · intro all
    obtain ⟨inside, closer, rest, meets', tag⟩ := all _ _ done [] _ _ rfl rfl
    obtain ⟨-, rfl, -⟩ := meets.unique meets'
    cases tag
  · intro unchanged
    have again : close call (dedentedCall .callEnd) = .ok ((dedentedCall .callEnd).dropLast ++
        [Token.generated .callEnd (.bare .callStart), .bare .outdent]) := rfl
    rw [unchanged _ _ done] at again
    cases congrArg List.length (Except.ok.inj again)

end TokenLayout.Closers
