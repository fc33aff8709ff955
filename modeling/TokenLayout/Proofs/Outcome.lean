/-
# TokenLayout.Proofs.Outcome -- what holds of every outcome

Each pass sets up one property of the outcome, and the passes after it keep it.
What the mapping pass leaves behind is a settled forest (`Braces.Settled`), and so is
what the two passes after it make of that: every colon in it stands directly inside a
mapping.  Read off the stream alone, the two braces of that mapping are the ones that
the searches before and after the colon find, and they close each other
(`Braces.InMapping`).

The properties are collected in `Orderly`.  None of them needs the closers to balance:
main statement `Resolver.orderly_of_runPasses`.
-/
import TokenLayout.Proofs.Rerun

namespace TokenLayout

set_option autoImplicit false

/-! ## Colons in mappings -/

namespace Braces

theorem Settled.of_holds {forest : Forest Token} (settled : Settled forest) {o c : Token}
    {inside : Forest Token} (holds : forest.Holds o inside c) :
    (hasColon inside = true → o.tag = .mappingStart ∧ c.tag = .mappingEnd) ∧
      spellsEmpty o inside c = false := by
  induction forest with
  | nil => cases holds
  | leaf t next ih => exact ih settled holds
  | pair o' within c' next ihWithin ihNext =>
      obtain ⟨mapping, notEmpty, inner, outer⟩ := settled
      rcases holds with ⟨rfl, rfl, rfl⟩ | deeper | later
      · exact ⟨mapping, notEmpty⟩
      · exact ihWithin inner deeper
      · exact ihNext outer later

/-- Every brace of a stream has its partner in it. -/
def Nested (tokens : Tokens) : Prop :=
  ∃ forest : Forest Token, forest.Braced ∧ forest.flatten = tokens

/-- Between these tokens a colon has a mapping around it: the searches for the braces before
and after it find a `{` and a `}`, and these two are partners, for all braces between them
have their partners there. -/
def InMapping (front : Tokens) (colon : Token) (back : Tokens) : Prop :=
  ∃ (left : Tokens) (o : Token) (passed passed' : Tokens) (c : Token) (right : Tokens),
    front = left ++ o :: passed ∧ back = passed' ++ c :: right ∧
      openBrace? front.reverse = some ⟨passed.reverse, o, left.reverse⟩ ∧
      closeBrace? back = some ⟨passed', c, right⟩ ∧
      o.tag = .mappingStart ∧ c.tag = .mappingEnd ∧ Nested (passed ++ colon :: passed')

/-- A colon of a settled stream stands directly inside a pair of its forest. -/
theorem exists_around_colon {forest : Forest Token} (loose : forest.Loose)
    (noColon : hasColon forest = false) {front back : Tokens} {t : Token} (colon : t.tag = .colon)
    (split : forest.flatten = front ++ t :: back) :
    ∃ (left : Tokens) (o : Token) (before after : Forest Token) (c : Token) (right : Tokens),
      forest.Holds o (before.append (.leaf t after)) c ∧
        front = left ++ o :: before.flatten ∧ back = after.flatten ++ c :: right := by
  rcases cases_colon loose colon split with ⟨before, after, rfl, -, -⟩ | around
  · exfalso
    simp [colon] at noColon
  · exact around

/-- Every colon of a settled stream is in a mapping. -/
theorem inMapping_of_settled {forest : Forest Token} (loose : forest.Loose)
    (noColon : hasColon forest = false) (settled : Settled forest) {front back : Tokens} {t : Token}
    (colon : t.tag = .colon) (split : forest.flatten = front ++ t :: back) :
    InMapping front t back := by
  obtain ⟨left, o, before, after, c, right, holds, rfl, rfl⟩ :=
    exists_around_colon loose noColon colon split
  obtain ⟨⟨opens, closes⟩, braced⟩ := loose.of_holds holds
  obtain ⟨first, -, second⟩ := braced.of_append
  obtain ⟨starts, ends⟩ := (settled.of_holds holds).1 (by
    simp [colon])
  refine ⟨left, o, before.flatten, after.flatten, c, right, rfl, rfl, ?_,
    closeBrace?_inside second closes right, starts, ends, before.append (.leaf t after), braced,
    by rw [Forest.flatten_append, Forest.flatten]⟩
  rw [List.reverse_append, List.reverse_cons, List.append_assoc, List.singleton_append]
  exact (passes_reverse_flatten first).found (Tag.isCloseBrace_of_isOpenBrace opens) opens

/-- No three tokens of a settled stream spell the empty mapping. -/
theorem notEmpty_of_settled {forest : Forest Token} (loose : forest.Loose)
    (noColon : hasColon forest = false) (settled : Settled forest) {front back : Tokens}
    {u t w : Token} (colon : t.tag = .colon)
    (split : forest.flatten = front ++ u :: t :: w :: back) : isEmptyMapping u t w = false := by
  have split' : forest.flatten = (front ++ [u]) ++ t :: w :: back := by simp [split]
  obtain ⟨left, o, before, after, c, right, holds, sameFront, sameBack⟩ :=
    exists_around_colon loose noColon colon split'
  obtain ⟨-, braced⟩ := loose.of_holds holds
  obtain ⟨first, -, second⟩ := braced.of_append
  -- only where nothing comes between the opener and the colon is the opener the token before it
  have notEmpty : before.flatten.reverse = [] → spellsEmpty o (.leaf t after) c = false := by
    intro none
    cases before with
    | nil => exact (settled.of_holds holds).2
    | leaf x next => simp at none
    | pair x inside y next => simp at none
  refine notEmpty_inside left.reverse right colon (passes_reverse_flatten first) second notEmpty
    u ?_ w ?_
  · have last := congrArg (fun tokens : Tokens => tokens.reverse.head?) sameFront
    simpa using last.symm
  · rw [← sameBack]
    rfl

end Braces

/-! ## Blocks that end -/

theorem Statements.Terminated.of_append {front rest : Tokens}
    (terminated : Terminated (front ++ rest)) : Terminated rest := by
  induction front with
  | nil => exact terminated
  | cons t front ih => exact ih terminated.2

/-- Where no terminator is due, the token after the end of a block goes on with the construct. -/
theorem Statements.Terminated.continues {tokens front back : Tokens} {t next : Token}
    (terminated : Terminated tokens) (split : tokens = front ++ t :: next :: back)
    (ends : t.tag = .outdent) :
    next.tag.isSingleCloser = true ∨ next.tag.suppressesTerminator = true := by
  subst split
  have notDue := terminated.of_append.1
  cases single : next.tag.isSingleCloser with
  | true => exact .inl rfl
  | false => exact .inr (by simpa [due, ends, continuesBlock, single] using notDue)

/-! ## Outcomes -/

/-- What all seven passes together make of a stream. -/
structure Orderly (tokens : Tokens) : Prop where
  /-- No terminator comes first. -/
  starts : ∀ t ∈ tokens.head?, t.tag ≠ .terminator
  /-- The end of a block is the end of the stream, or the next token ends the statement or goes
  on with it. -/
  ended : ∀ front t next back, tokens = front ++ t :: next :: back → t.tag = .outdent →
    next.tag.isSingleCloser = true ∨ next.tag.suppressesTerminator = true
  /-- Every colon that is left stands in a mapping. -/
  mapped : ∀ front t back, tokens = front ++ t :: back → t.tag = .colon →
    Braces.InMapping front t back
  /-- The empty mapping has lost its colon. -/
  emptied : ∀ front o t c back, tokens = front ++ o :: t :: c :: back → t.tag = .colon →
    t.value = ":" → o.tag.isOpenBrace = true → o.value = "\x7b" → c.tag.isCloseBrace = true →
      c.value ≠ "\x7d"
  /-- What was not read from source has a location. -/
  located : ∀ t ∈ tokens, t.provenance = .generated ∨ t.provenance = .explicit →
    t.location.isSome = true

namespace Resolver

/-- **What holds of every outcome** of the seven passes, whether or not it balances. -/
theorem orderly_of_runPasses (tokens out : Tokens)
    (done : runPasses Pass.order tokens = .ok out) : Orderly out := by
  obtain ⟨starts, ⟨forest, loose, noColon, settled, same⟩, terminated, placed⟩ :=
    arranged_of_runPasses done
  obtain ⟨above, rfl, loose', noColon', settled'⟩ :=
    exists_settled_of_sketch loose noColon settled same.symm
  refine ⟨starts, ?_, ?_, ?_, ?_⟩
  · intro front t next back split ends
    exact terminated.continues split ends
  · intro front t back split colon
    exact Braces.inMapping_of_settled loose' noColon' settled' colon split
  · intro front o t c back split colon spelled opens opener closes closer
    have notEmpty := Braces.notEmpty_of_settled loose' noColon' settled' colon split
    simp [Braces.isEmptyMapping, spelled, opens, opener, closes, closer] at notEmpty
  · intro t member synthesized
    rcases placed t member with located | source
    · exact located
    · rcases synthesized with made | made <;>
        · rw [made] at source
          cases source

/-- A class and a call, with a closer too many behind them. -/
theorem orderly_of_runPasses_strayCloser :
    ∃ out, runPasses Pass.order (classAndCall ++ [.onFirstLine .parenEnd 9]) = .ok out ∧
      ensureBalance out = .error (.ofUnbalanced (.onFirstLine .parenEnd 9)) ∧ Orderly out :=
  ⟨_, rfl, rfl, orderly_of_runPasses (classAndCall ++ [.onFirstLine .parenEnd 9]) _ rfl⟩

end Resolver

end TokenLayout
