/-
# TokenLayout.Proofs.Closed -- streams with every closer in place

A stream is explicitly closed when its openers and closers nest, and each opener is
closed by its own closer or, for a call and an index, by the plain `)` or `]`.  Such a
stream is a balanced one in which some dedicated closers were weakened and none was
dropped, so the closing passes make it balanced again and retag nothing but those
closers: main statement `close_closed`.
-/
import Mathlib.Data.List.Forall2
import TokenLayout.Proofs.Erasure
import TokenLayout.Proofs.Following

namespace TokenLayout

set_option autoImplicit false

open List (Forall₂)

/-- A closer that closes this opener: its own one, or the plain one for a call or an index. -/
def Token.ClosedBy (opener closer : Token) : Prop :=
  opener.Partners closer ∨ (opener.tag = .callStart ∧ closer.tag = .parenEnd) ∨
    (opener.tag = .indexStart ∧ closer.tag = .bracketEnd)

/-- Each opener is closed, innermost first. -/
def Forest.Closed (forest : Forest Token) : Prop :=
  forest.Nests Token.Alone Token.ClosedBy

/-- The openers and closers of a stream nest. -/
def ExplicitlyClosed (tokens : Tokens) : Prop :=
  ∃ forest : Forest Token, forest.Closed ∧ forest.flatten = tokens

theorem Forest.Balanced.closed {forest : Forest Token} (balanced : forest.Balanced) :
    forest.Closed :=
  balanced.mono (fun _ alone => alone) fun _ _ => .inl

theorem Token.ClosedBy.isOpener {o c : Token} (closed : o.ClosedBy c) :
    o.tag.isOpener = true := by
  rcases closed with partners | ⟨call, -⟩ | ⟨index, -⟩
  · exact partners.1
  · rw [call]
    decide
  · rw [index]
    decide

theorem Token.ClosedBy.brackets {o c : Token} (closed : o.ClosedBy c) : o.Brackets c := by
  refine ⟨closed.isOpener, ?_⟩
  rcases closed with partners | ⟨-, paren⟩ | ⟨-, bracket⟩
  · exact partners.brackets.2
  · rw [paren]
    decide
  · rw [bracket]
    decide

theorem Forest.Closed.level {forest : Forest Token} (closed : forest.Closed) : forest.Level :=
  closed.mono (fun _ alone => alone) fun _ _ => Token.ClosedBy.brackets

/-! ## Leading terminators -/

theorem Forest.Closed.dropLeading {forest : Forest Token} (closed : forest.Closed) :
    ExplicitlyClosed (Statements.dropLeading forest.flatten) := by
  induction forest with
  | nil => exact ⟨.nil, trivial, rfl⟩
  | leaf t next ih =>
      by_cases leading : t.tag = .terminator
      · simpa [leading] using ih closed.2
      · refine ⟨.leaf t next, closed, ?_⟩
        simp [leading]
  | pair o inside c next _ _ =>
      have notLeading : o.tag ≠ .terminator := by
        intro leading
        have opens := closed.1.isOpener
        rw [leading] at opens
        cases opens
      refine ⟨.pair o inside c next, closed, ?_⟩
      simp [notLeading]

/-! ## The closing passes -/

/-- A closer is what is left of the opener's own closer. -/
theorem Token.ClosedBy.exists_own {o c : Token} (closed : o.ClosedBy c) :
    ∃ a : Token × Fate, o.Partners a.1 ∧ Erasure.survivor a = some c ∧ Erasure.Spared a ∧
      c.Retagged a.1 := by
  rcases closed with partners | ⟨call, paren⟩ | ⟨index, bracket⟩
  · exact ⟨(c, .keep), partners, rfl, .inl rfl, .refl c⟩
  · refine ⟨(c.retag .callEnd, .weaken), ⟨?_, ?_⟩, ?_, .inr ⟨rfl, .inl rfl⟩,
      Token.retagged_of_mem ?_⟩
    · rw [call]
      decide
    · rw [call]
      rfl
    · exact congrArg some (Braces.retag_self paren)
    · rw [paren]
      decide
  · refine ⟨(c.retag .indexEnd, .weaken), ⟨?_, ?_⟩, ?_, .inr ⟨rfl, .inr rfl⟩,
      Token.retagged_of_mem ?_⟩
    · rw [index]
      decide
    · rw [index]
      rfl
    · exact congrArg some (Braces.retag_self bracket)
    · rw [bracket]
      decide

/-- A closed forest is what is left of a balanced one, whose closers it has weakened. -/
theorem Forest.Closed.exists_erasure {forest : Forest Token} (closed : forest.Closed) :
    ∃ above : Forest (Token × Fate), (above.map Prod.fst).Balanced ∧
      Erasure.erased above.flatten = forest.flatten ∧
      (∀ a ∈ above.flatten, Erasure.Spared a) ∧
      Forall₂ Token.Retagged forest.flatten (Erasure.source above.flatten) := by
  induction forest with
  | nil => exact ⟨.nil, trivial, rfl, fun a member => (by cases member), .nil⟩
  | leaf t next ih =>
      obtain ⟨above, balanced, erased, spared, retagged⟩ := ih closed.2
      refine ⟨.leaf (t, .keep) above, ⟨closed.1, balanced⟩, ?_, ?_, .cons (.refl t) retagged⟩
      · exact congrArg (t :: ·) erased
      · intro a member
        rcases List.mem_cons.1 member with rfl | later
        · exact .inl rfl
        · exact spared a later
  | pair o inside c next ihInside ihNext =>
      obtain ⟨within, balanced, erased, spared, retagged⟩ := ihInside closed.2.1
      obtain ⟨above, balanced', erased', spared', retagged'⟩ := ihNext closed.2.2
      -- in the balanced forest the opener's own closer stands where its closer stands here
      obtain ⟨own, partners, survives, kept, closer⟩ := closed.1.exists_own
      refine ⟨.pair (o, .keep) within own above, ⟨partners, balanced, balanced'⟩, ?_, ?_, ?_⟩
      · have later : Erasure.erased (own :: above.flatten) = c :: next.flatten := by
          rw [← erased', Erasure.erased, List.filterMap_cons, survives]
          rfl
        simp only [Forest.flatten]
        rw [← erased, ← later, ← Erasure.erased_append]
        rfl
      · intro a member
        simp only [Forest.flatten, List.mem_cons, List.mem_append] at member
        rcases member with rfl | inner | rfl | later
        · exact .inl rfl
        · exact spared a inner
        · exact kept
        · exact spared' a later
      · have whole : Forall₂ Token.Retagged (inside.flatten ++ c :: next.flatten)
            (Erasure.source (within.flatten ++ own :: above.flatten)) := by
          rw [Erasure.source_append]
          exact List.rel_append retagged (.cons closer retagged')
        exact .cons (.refl o) whole

/-- **The closing passes balance an explicitly closed stream**, and retag only. -/
theorem close_closed {tokens : Tokens} (closed : ExplicitlyClosed tokens) :
    ∃ called balanced, Closers.close Closers.call tokens = .ok called ∧
      Closers.close Closers.index called = .ok balanced ∧
      ensureBalance balanced = .ok () ∧ Forall₂ Token.Retagged tokens balanced := by
  obtain ⟨forest, nests, rfl⟩ := closed
  obtain ⟨above, balanced, erased, spared, retagged⟩ := nests.exists_erasure
  have accepted : ensureBalance (Erasure.source above.flatten) = .ok () :=
    (ensureBalance_iff_forest _).2 ⟨above.map Prod.fst, balanced, Forest.flatten_map _ _⟩
  obtain ⟨called, calls, indexes⟩ := Erasure.close_spared accepted spared
  rw [erased] at calls
  exact ⟨called, _, calls, indexes, accepted, retagged⟩

end TokenLayout
