/-
# TokenLayout.Proofs.Restoration -- a run restores what the lexer left out

Each pass makes its repair in the stream of any program, given that the passes
before it have made theirs; put together, the run takes the lexer's stream to the
resolved one (`Resolver.run_lexed`).  This is about streams without locations.
Since no pass looks at one, a stream that reads like the lexer's has an outcome that
reads like the resolved one (`Resolver.run_restores`).
-/
import TokenLayout.Proofs.Kinship
import TokenLayout.Proofs.Restoration.Closers
import TokenLayout.Proofs.Restoration.Conditionals
import TokenLayout.Proofs.Restoration.Mappings
import TokenLayout.Proofs.Restoration.Terminators

namespace TokenLayout

set_option autoImplicit false

open List (Forall₂)

/-- The newlines in front are dropped, and nothing else. -/
theorem Program.dropLeading_lexed (program : Program) (newlines : Nat) :
    Statements.dropLeading (program.lexed newlines) =
      Rendering.lexed (Phrase.rendering program) := by
  have starts : Starts (Rendering.lexed (Phrase.rendering program)) := by
    intro t first
    rcases program.begins_block with empty | begins
    · rw [empty] at first
      cases first
    · obtain ⟨u, rest, shows, begin_⟩ := begins []
      rw [Rendering.lexed, shows] at first
      obtain rfl : u = t := by simpa using first
      intro tag
      simp [Statements.continuesBlock, tag, Tag.isSingleCloser, Tag.singleClosers] at begin_
  rw [lexed]
  induction newlines with
  | zero => exact Statements.dropLeading_eq_self starts
  | succ newlines ih =>
      rw [List.replicate_succ, List.cons_append, Statements.dropLeading,
        List.dropWhile_cons_of_pos rfl]
      exact ih

namespace Resolver

/-- The run on a program as the lexer writes it. -/
theorem run_lexed (program : Program) (newlines : Nat) :
    full.run (program.lexed newlines) = .ok (Locations.backfill program.resolved) := by
  obtain ⟨called, calls, indexes⟩ := program.close_rendering
  have balanced : ensureBalance program.resolved = .ok () := by
    have nested : Rendering.Nested Repair.terminators.done (Phrase.rendering program) :=
      program.nested (by decide)
    obtain ⟨forest, nests, flat⟩ := nested
    exact (ensureBalance_iff_forest _).2 ⟨forest, nests, flat⟩
  have same := Locations.map_unplaced_settleFrom none program.resolved
  refine full_run_eq_ok_iff.2 ⟨?_, ensureBalance_of_sketch (map_sketch_of_unplaced same) balanced⟩
  refine runPasses_order_eq_ok_iff.2 ⟨called, _, _, _, ?_, indexes, program.trailed_rendering,
    program.markMappings_rendering, ?_⟩
  · rw [program.dropLeading_lexed newlines]
    exact calls
  · rw [program.terminated_rendering]
    rfl

end Resolver

/-! ## Streams that read alike -/

/-- No pass reads more of a token than the notation writes down. -/
theorem kinship_sameEntry : Kinship fun t u => t.sameEntry u = true where
  tag same := (Token.sameEntry_iff.1 same).1
  isGenerated same := by
    obtain ⟨-, -, provenance, -⟩ := Token.sameEntry_iff.1 same
    rw [Token.isGenerated, provenance, Token.isGenerated]
  fromThen same := (Token.sameEntry_iff.1 same).2.2.2
  spellsMapping same := by
    obtain ⟨tag, value, -, -⟩ := Token.sameEntry_iff.1 same
    rw [Token.spellsMapping, tag, value, Token.spellsMapping]
  retag same _ _ _ := Token.sameEntry_iff.2 ⟨rfl, (Token.sameEntry_iff.1 same).2⟩
  generated _ _ _ _ := Token.sameEntry_iff.2 ⟨rfl, rfl, rfl, rfl⟩
  explicit _ _ _ _ := Token.sameEntry_iff.2 ⟨rfl, rfl, rfl, rfl⟩
  place _ _ same := Token.sameEntry_iff.2 (Token.sameEntry_iff.1 same)

/-- A stream reads like itself. -/
theorem forall₂_sameEntry (tokens : Tokens) :
    Forall₂ (fun t u => t.sameEntry u = true) tokens tokens :=
  List.forall₂_same.2 fun _ _ => Token.sameEntry_iff.2 ⟨rfl, rfl, rfl, rfl⟩

/-- Where a token is does not matter to how it reads. -/
theorem sameEntry_of_unplaced {tokens tokens' tokens'' : Tokens}
    (first : Forall₂ (fun t u => t.sameEntry u = true) tokens tokens')
    (second : tokens'.map Locations.unplaced = tokens''.map Locations.unplaced) :
    Forall₂ (fun t u => t.sameEntry u = true) tokens tokens'' := by
  induction first generalizing tokens'' with
  | nil =>
      have empty : tokens'' = [] := by simpa using second.symm
      rw [empty]
      exact .nil
  | @cons t u rest rest' same _ ih =>
      obtain ⟨w, more, rfl, unplaced, later⟩ := List.map_eq_cons_iff.1 second.symm
      refine .cons (Token.sameEntry_iff.2 ?_) (ih later.symm)
      obtain ⟨tag, value, provenance, fromThen⟩ := Token.sameEntry_iff.1 same
      exact ⟨tag.trans (congrArg Token.tag unplaced).symm,
        value.trans (congrArg Token.value unplaced).symm,
        provenance.trans (congrArg Token.provenance unplaced).symm,
        fromThen.trans (congrArg Token.fromThen unplaced).symm⟩

/-- **A run restores what the lexer left out.**  Whatever the program, and wherever its tokens are,
the run on the program as the lexer writes it, after any number of newlines, succeeds, and its
outcome reads as the program with everything made explicit. -/
theorem Resolver.run_restores (program : Program) (newlines : Nat) (stream : Tokens)
    (lexed : Forall₂ (fun t u => t.sameEntry u = true) stream (program.lexed newlines)) :
    ∃ out, full.run stream = .ok out ∧
      Forall₂ (fun t u => t.sameEntry u = true) out program.resolved := by
  have outcomes := run_kin kinship_sameEntry full lexed
  rw [run_lexed] at outcomes
  obtain ⟨out, done, same⟩ := outcomes.exists_ok
  exact ⟨out, done, sameEntry_of_unplaced same (Locations.map_unplaced_settleFrom none _)⟩

/-- A class with a function in its body, which holds a trailing conditional and ends with a chain
of calls without their closers, and a conditional with an empty mapping in front of a last name. -/
def Program.classAndBranch : Program :=
  .sequence (.classOf "a" (some "b") (.lastMember "k" (.function
      (.sequence (.guarded (.call "f" ["x"]) true "c")
        (.finish (some (.chain "f" [.group (.name "x")] (.single "g" []))))))))
    (.sequence (.branch false (.name "x") (.sequence (.evaluate .emptyMapping) (.finish none))
        (.alternative (.sequence (.assign "x" (.index "a" (.name "y"))) (.finish none))))
      (.sequence (.evaluate (.name "z")) (.finish none)))

/-- It is read from the first line, behind two newlines. -/
theorem Resolver.run_restores_classAndBranch :
    Forall₂ (fun t u => t.sameEntry u = true)
        ((Program.classAndBranch.lexed 2).map fun t => t.locate Location.zero)
        (Program.classAndBranch.lexed 2) ∧
      Program.classAndBranch.resolved.map Token.tag = [
        .classWord, .identifier, .extendsWord, .identifier, .indent, .mappingStart, .identifier,
        .colon, .arrow, .indent, .identifier, .callStart, .identifier, .callEnd, .postUnless,
        .identifier, .terminator, .identifier, .callStart, .parenStart, .identifier, .parenEnd,
        .comma, .identifier, .callStart, .callEnd, .callEnd, .outdent, .mappingEnd, .outdent,
        .terminator, .ifWord, .identifier, .indent, .mappingStart, .mappingEnd, .outdent,
        .elseWord, .indent, .identifier, .assign, .identifier, .indexStart, .identifier,
        .indexEnd, .outdent, .terminator, .identifier] ∧
      ∃ out,
        full.run ((Program.classAndBranch.lexed 2).map fun t => t.locate Location.zero) =
          .ok out ∧
        Forall₂ (fun t u => t.sameEntry u = true) out Program.classAndBranch.resolved := by
  have lexed : Forall₂ (fun t u => t.sameEntry u = true)
      ((Program.classAndBranch.lexed 2).map fun t => t.locate Location.zero)
      (Program.classAndBranch.lexed 2) := by
    rw [List.forall₂_map_left_iff, List.forall₂_same]
    exact fun t _ => Token.sameEntry_iff.2 ⟨rfl, rfl, rfl, rfl⟩
  exact ⟨lexed, by decide, run_restores Program.classAndBranch 2 _ lexed⟩

end TokenLayout
