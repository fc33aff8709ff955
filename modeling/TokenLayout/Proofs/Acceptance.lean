/-
# TokenLayout.Proofs.Acceptance -- which explicitly closed streams resolve

From an explicitly closed stream the first three passes make a balanced one
(`runPasses_closers`), and every later pass keeps it balanced (`balanced_runPasses`):
the mapping pass dresses pairs of braces with pairs of braces, terminators stand alone,
and neither conditionals nor locations matter to the balance.

So a single thing can go wrong, and it is told by the stream as it was given: a colon
outside all braces.  Main statement: `Resolver.run_closed`.
-/
import TokenLayout.Proofs.Depth
import TokenLayout.Proofs.Rerun

namespace TokenLayout

set_option autoImplicit false

open List (Forall₂)

/-! ## Later passes keep the balance -/

namespace Braces

/-- The check passes over a dressed pair, if it passes over what now lies between. -/
theorem checkBalance_dress {before : Tokens} {o c : Token} {inside inner : Forest Token}
    (partners : o.Partners c)
    (passes : ∀ opened rest, checkBalance opened (inner.flatten ++ rest) = checkBalance opened rest)
    (opened rest : Tokens) :
    checkBalance opened ((dress before o inside inner c).flatten ++ rest) =
      checkBalance opened rest := by
  have mapping : (o.retag .mappingStart).Partners (c.retag .mappingEnd) := ⟨rfl, rfl⟩
  have nothing : ∀ opened rest : Tokens,
      checkBalance opened ([] ++ rest) = checkBalance opened rest := fun _ _ => rfl
  simp only [dress]
  split
  · exact checkBalance_pair mapping nothing opened rest
  · split
    · split
      · have block : (Token.generated .indent (o.retag .mappingStart)).Partners
            (.generated .outdent (o.retag .mappingStart)) := ⟨rfl, rfl⟩
        have within : ∀ opened rest, checkBalance opened
            ((o.retag .mappingStart :: (inner.flatten ++ [c.retag .mappingEnd])) ++ rest) =
              checkBalance opened rest := by
          intro opened rest
          simpa using checkBalance_pair mapping passes opened rest
        simpa using checkBalance_pair block within opened rest
      · simpa using checkBalance_pair mapping passes opened rest
    · simpa using checkBalance_pair partners passes opened rest

/-- The check passes over a balanced forest whose braces are marked. -/
theorem checkBalance_mark {forest : Forest Token} (balanced : forest.Balanced)
    (before opened rest : Tokens) :
    checkBalance opened ((mark before forest.braces).flatten ++ rest) =
      checkBalance opened rest := by
  induction forest generalizing before opened rest with
  | nil => rfl
  | leaf t next ih =>
      simp only [Forest.braces, mark, Forest.flatten, List.cons_append]
      rw [checkBalance_alone balanced.1, ih balanced.2]
  | pair o inside c next ihInside ihNext =>
      obtain ⟨partners, inner, outer⟩ := balanced
      rw [Forest.braces]
      split
      · rw [mark, Forest.flatten_append, List.append_assoc,
          checkBalance_dress partners (ihInside inner _), ihNext outer]
      · have between := ihInside inner (o :: before)
        simp only [mark, mark_append, Forest.flatten, Forest.flatten_append, List.cons_append,
          List.append_assoc]
        rw [checkBalance_pair partners between, ihNext outer]

/-- **The mapping pass on a balanced stream**: it leaves the stream balanced, or it meets a colon
outside all braces and blames the first one. -/
theorem markMappings_balanced {tokens : Tokens} (balanced : ensureBalance tokens = .ok ()) :
    (∃ marked, markMappings tokens = .ok marked ∧ ensureBalance marked = .ok () ∧
        outside? 0 tokens = none) ∨
      ∃ t, markMappings tokens = .error (.unmatchedMappingOpen t.reportedAt) ∧
        outside? 0 tokens = some t := by
  -- the pass sees braces only, so the balanced forest is read as one of braces
  obtain ⟨forest, nests, rfl⟩ := (ensureBalance_iff_forest _).1 balanced
  have braced := nests.closed.braces
  rw [← Forest.flatten_braces, outside?_flatten braced]
  cases colon : hasColon forest.braces with
  | false =>
      refine .inl ⟨_, markMappings_eq_mark braced.loose colon, ?_, ?_⟩
      · have passed := checkBalance_mark nests [] [] []
        rw [List.append_nil] at passed
        exact passed.trans rfl
      · simpa [hasColon] using colon
  | true =>
      -- up to the first colon at the surface all is marked, and before that colon no brace is open
      obtain ⟨front, t, later, split, tag, noColon, loose, -⟩ :=
        exists_first_colon braced.loose colon
      have noOpener : ∀ u ∈ front.surface, u.tag.isOpenBrace = false := by
        rw [split] at braced
        exact fun u member => (braced.of_append.1.surface member).1
      refine .inr ⟨t, ?_, ?_⟩
      · rw [split, Forest.flatten_append, Forest.flatten]
        exact markMappings_unopened loose noColon tag noOpener later.flatten
      · have none : front.surface.find? (fun t => t.tag == .colon) = none := by
          simpa [hasColon] using noColon
        simp [split, none, tag]

end Braces

/-- Terminators stand alone. -/
theorem Statements.checkBalance_terminated (opened tokens : Tokens) :
    checkBalance opened (terminated tokens) = checkBalance opened tokens := by
  have skip : ∀ (t : Token) (next : Option Token) (opened rest : Tokens),
      checkBalance opened (due t next ++ rest) = checkBalance opened rest := by
    intro t next opened rest
    unfold due
    split
    · split
      · exact checkBalance_alone ⟨rfl, rfl⟩ opened rest
      · rfl
    · rfl
  induction tokens generalizing opened with
  | nil => rfl
  | cons t rest ih => simp only [terminated, checkBalance, skip, ih]

/-- A pass after the closing passes keeps the balance. -/
theorem Pass.balanced_apply {p : Pass} (later : p ∈ order.drop 3) {tokens out : Tokens}
    (balanced : ensureBalance tokens = .ok ()) (done : p.apply tokens = .ok out) :
    ensureBalance out = .ok () := by
  have which : p = .trailingConditionals ∨ p = .mappingLiterals ∨ p = .terminators ∨
      p = .locationBackfill := by
    simpa [order] using later
  rcases which with rfl | rfl | rfl | rfl
  · rw [apply, Conditionals.markTrailing_eq_trailed] at done
    exact Resolver.ensureBalance_of_sketch (Conditionals.sketch_trailed done).1 balanced
  · rcases Braces.markMappings_balanced balanced with ⟨marked, marks, kept, -⟩ | ⟨t, fails, -⟩
    · rw [apply, marks] at done
      obtain rfl := Except.ok.inj done
      exact kept
    · rw [apply, fails] at done
      cases done
  · rw [apply, Statements.terminateBlocks_eq] at done
    obtain rfl := Except.ok.inj done
    rwa [ensureBalance, Statements.checkBalance_terminated]
  · obtain rfl := Except.ok.inj done
    have same := Locations.map_unplaced_settleFrom none tokens
    exact Resolver.ensureBalance_of_sketch (map_sketch_of_unplaced same) balanced

namespace Resolver

variable {tokens out : Tokens}

/-- **Whatever runs after the closing passes keeps the balance.** -/
theorem balanced_runPasses {passes : List Pass} (later : ∀ p ∈ passes, p ∈ Pass.order.drop 3)
    (balanced : ensureBalance tokens = .ok ()) (done : runPasses passes tokens = .ok out) :
    ensureBalance out = .ok () := by
  induction passes generalizing tokens with
  | nil =>
      obtain rfl := runPasses_nil done
      exact balanced
  | cons p passes ih =>
      obtain ⟨middle, first, rest⟩ := runPasses_cons done
      exact ih (fun q member => later q (.tail _ member))
        (Pass.balanced_apply (later p (.head _)) balanced first) rest

/-! ## Runs on closed streams -/

theorem full_run_eq_error {fault : Fault} (failed : runPasses Pass.order tokens = .error fault) :
    full.run tokens = .error fault := by
  have passes : full.passes = Pass.order := rfl
  simp only [run, passes, failed]
  rfl

/-- The closing passes balance an explicitly closed stream, and the first colon outside all
braces stays the first. -/
theorem runPasses_closers (closed : ExplicitlyClosed tokens) :
    ∃ middle, runPasses (Pass.order.take 3) tokens = .ok middle ∧
      ensureBalance middle = .ok () ∧
      (Braces.outside? 0 middle).map Token.reportedAt =
        (Braces.outside? 0 tokens).map Token.reportedAt := by
  obtain ⟨forest, nests, rfl⟩ := closed
  obtain ⟨called, middle, calls, indexes, balanced, retagged⟩ := close_closed nests.dropLeading
  refine ⟨middle, runPasses_closers_eq calls indexes, balanced, ?_⟩
  rw [Braces.outside?_retagged retagged, Braces.outside?_dropLeading]

/-- Nor do the conditionals change it. -/
theorem runPasses_conditionals (closed : ExplicitlyClosed tokens) :
    ∃ middle, runPasses (Pass.order.take 4) tokens = .ok middle ∧
      ensureBalance middle = .ok () ∧
      (Braces.outside? 0 middle).map Token.reportedAt =
        (Braces.outside? 0 tokens).map Token.reportedAt := by
  obtain ⟨before, first, balanced, same⟩ := runPasses_closers closed
  obtain ⟨middle, trails⟩ := Conditionals.exists_trailed_of_balanced balanced
  have fourth : Pass.trailingConditionals.apply before = .ok middle := by
    rw [Pass.apply, Conditionals.markTrailing_eq_trailed, trails]
  refine ⟨middle, ?_, Pass.balanced_apply (by simp [Pass.order]) balanced fourth, ?_⟩
  · have split : Pass.order.take 4 = Pass.order.take 3 ++ [.trailingConditionals] := rfl
    rw [split, runPasses_append first, runPasses_cons_eq fourth]
    rfl
  · rw [Braces.outside?_retagged (Conditionals.retagged_trailed trails), same]

/-- The outcome on a closed stream is settled by its first colon outside all braces. -/
theorem run_of_outside (closed : ExplicitlyClosed tokens) :
    ((∃ out, full.run tokens = .ok out) ∧ Braces.outside? 0 tokens = none) ∨
      ∃ t, full.run tokens = .error (.unmatchedMappingOpen t.reportedAt) ∧
        Braces.outside? 0 tokens = some t := by
  obtain ⟨middle, first, balanced, same⟩ := runPasses_conditionals closed
  have onward : runPasses Pass.order tokens = runPasses (Pass.order.drop 4) middle :=
    runPasses_append first
  rcases Braces.markMappings_balanced balanced with ⟨marked, marks, -, none⟩ | ⟨u, fails, found⟩
  · have ran : runPasses (Pass.order.drop 4) middle =
        .ok (Locations.backfill (Statements.terminated marked)) := by
      rw [runPasses_mappings_eq, marks]
      rfl
    have kept := balanced_runPasses (by simp [Pass.order]) balanced ran
    refine .inl ⟨⟨_, full_run_eq_ok_iff.2 ⟨onward.trans ran, kept⟩⟩, ?_⟩
    simpa [none] using same.symm
  · rw [found] at same
    obtain ⟨t, first, located⟩ := Option.map_eq_some_iff.1 same.symm
    refine .inr ⟨t, full_run_eq_error (onward.trans ?_), first⟩
    rw [runPasses_mappings_eq, fails, located]
    rfl

/-- The first colon of a stream that lies outside all braces stands between these tokens. -/
structure FirstOutside (tokens front : Tokens) (t : Token) (back : Tokens) : Prop where
  split : tokens = front ++ t :: back
  colon : t.tag = .colon
  outside : ¬Braces.InBraces front t back
  earlier : ∀ front' u back', front = front' ++ u :: back' → u.tag = .colon →
    Braces.InBraces front' u (back' ++ t :: back)

theorem exists_firstOutside (closed : ExplicitlyClosed tokens) {t : Token}
    (first : Braces.outside? 0 tokens = some t) :
    ∃ front back, FirstOutside tokens front t back := by
  obtain ⟨front, back, rfl, colon, outside, earlier⟩ := Braces.outside?_eq_some first
  refine ⟨front, back, rfl, colon, ?_, ?_⟩
  · rw [Braces.inBraces_iff colon closed, Braces.depth, outside]
    exact Nat.lt_irrefl 0
  · rintro front' u back' rfl colon'
    rw [List.append_assoc] at closed
    exact (Braces.inBraces_iff colon' closed).2 (earlier front' u back' rfl colon')

/-- **Which explicitly closed streams resolve.**  The first four passes always succeed, and
from the third on every pass that does leaves a balanced stream.  The run succeeds just if every
colon lies inside a pair of braces, and otherwise blames the first one that does not. -/
theorem run_closed (tokens : Tokens) (closed : ExplicitlyClosed tokens) :
    (∃ four, runPasses (Pass.order.take 4) tokens = .ok four) ∧
      (∀ n out, 3 ≤ n → runPasses (Pass.order.take n) tokens = .ok out →
        ensureBalance out = .ok ()) ∧
      ((∃ out, full.run tokens = .ok out) ↔
        ∀ front t back, tokens = front ++ t :: back → t.tag = .colon →
          Braces.InBraces front t back) ∧
      ∀ fault, full.run tokens = .error fault →
        ∃ front t back, FirstOutside tokens front t back ∧
          fault = .unmatchedMappingOpen t.reportedAt := by
  refine ⟨?_, ?_, ?_, ?_⟩
  · obtain ⟨four, ran, -⟩ := runPasses_conditionals closed
    exact ⟨four, ran⟩
  · intro n out enough ran
    obtain ⟨middle, first, balanced, -⟩ := runPasses_closers closed
    -- the stream is balanced after three passes, and whatever comes then keeps it so
    obtain ⟨more, rfl⟩ : ∃ more, n = 3 + more := ⟨n - 3, by omega⟩
    rw [List.take_add, runPasses_append first] at ran
    exact balanced_runPasses (fun p => List.mem_of_mem_take) balanced ran
  · rcases run_of_outside closed with ⟨done, none⟩ | ⟨t, failed, first⟩
    · refine iff_of_true done ?_
      rintro front t back rfl colon
      exact (Braces.inBraces_iff colon closed).2 (Braces.foldl_deepen_pos none rfl colon)
    · refine iff_of_false ?_ ?_
      · rintro ⟨out, done⟩
        rw [failed] at done
        cases done
      · intro everywhere
        obtain ⟨front, back, split, colon, outside, -⟩ := exists_firstOutside closed first
        exact outside (everywhere front t back split colon)
  · intro fault failed
    rcases run_of_outside closed with ⟨⟨out, done⟩, -⟩ | ⟨t, failed', first⟩
    · rw [done] at failed
      cases failed
    · obtain ⟨front, back, outside⟩ := exists_firstOutside closed first
      rw [failed'] at failed
      exact ⟨front, t, back, outside, (Except.error.inj failed).symm⟩

/-- A call with a mapping for its argument and a plain `)`, and a second colon behind it. -/
def colonBehindCall : Tokens :=
  [.onFirstLine .callStart 0, .onFirstLineAs .indent "\x7b" 1, .onFirstLine .colon 2,
   .onFirstLineAs .outdent "\x7d" 3, .onFirstLine .parenEnd 4, .onFirstLine .colon 5]

theorem run_closed_colonBehindCall :
    ExplicitlyClosed colonBehindCall ∧
      (∃ four, runPasses (Pass.order.take 4) colonBehindCall = .ok four) ∧
      ∃ front t back, FirstOutside colonBehindCall front t back ∧
        full.run colonBehindCall = .error (.unmatchedMappingOpen t.reportedAt) := by
  have closed : ExplicitlyClosed colonBehindCall :=
    ⟨.pair (.onFirstLine .callStart 0)
        (.pair (.onFirstLineAs .indent "\x7b" 1) (.leaf (.onFirstLine .colon 2) .nil)
          (.onFirstLineAs .outdent "\x7d" 3) .nil)
        (.onFirstLine .parenEnd 4) (.leaf (.onFirstLine .colon 5) .nil),
      ⟨.inr (.inl ⟨rfl, rfl⟩), ⟨.inl ⟨rfl, rfl⟩, ⟨⟨rfl, rfl⟩, trivial⟩, trivial⟩,
        ⟨rfl, rfl⟩, trivial⟩, rfl⟩
  obtain ⟨four, -, -, blames⟩ := run_closed colonBehindCall closed
  obtain ⟨front, t, back, first, blamed⟩ := blames _ rfl
  exact ⟨closed, four, front, t, back, first, congrArg Except.error blamed⟩

end Resolver

end TokenLayout
