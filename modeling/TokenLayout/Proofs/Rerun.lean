/-
# TokenLayout.Proofs.Rerun -- resolving a resolved stream

All that a run leaves behind is said by `Resolved`: no terminator leads, openers
and closers balance, the braces are settled, no terminator is due, and every
synthesized token has a place.  A run makes a stream resolved
(`resolved_of_run`), and on a resolved stream every pass is at rest but the one
for conditionals, which may still retag (`run_of_resolved`).

It does retag where the first run left a conditional leading and then made its
body unfit to be one: a block that became a mapping, a terminator put after a
block inside the condition, a block wrapped around a mapping there.  So a resolved
stream comes back unchanged just if every conditional left in it still leads its
body (`LeadsBody`), and this is not always so (`run_run_ne_conditionalMapping`).
-/
import TokenLayout.Proofs.Erasure
import TokenLayout.Proofs.Following
import TokenLayout.Proofs.Settled

namespace TokenLayout

set_option autoImplicit false

/-- Where nothing is erased, closing restores nothing. -/
theorem Erasure.close_balanced {tokens : Tokens} (balanced : ensureBalance tokens = .ok ()) :
    ∃ called, Closers.close Closers.call tokens = .ok called ∧
      Closers.close Closers.index called = .ok tokens := by
  let all : Erasure := tokens.map fun t => (t, .keep)
  have source : all.source = tokens := by simp [all, Erasure.source, Function.comp_def]
  have erased : all.erased = tokens := by
    simp [all, Erasure.erased, List.filterMap_map, Function.comp_def, Erasure.survivor]
  have spared : ∀ a ∈ all, Erasure.Spared a := by
    intro a member
    obtain ⟨t, -, rfl⟩ := List.mem_map.1 member
    exact .inl rfl
  have closes := Erasure.close_spared (source.symm ▸ balanced) spared
  rwa [erased, source] at closes

/-! ## Resolved streams -/

/-- Every pass is done with the stream, but for the conditionals. -/
structure Resolved (tokens : Tokens) : Prop where
  starts : Starts tokens
  balanced : ensureBalance tokens = .ok ()
  settled : ∃ forest : Forest Token, forest.Loose ∧ Braces.hasColon forest = false ∧
    Braces.Settled forest ∧ forest.flatten.map Token.sketch = tokens.map Token.sketch
  terminated : Statements.Terminated tokens
  placed : ∀ t ∈ tokens, Locations.Placed t

theorem map_sketch_of_unplaced {tokens tokens' : Tokens}
    (same : tokens.map Locations.unplaced = tokens'.map Locations.unplaced) :
    tokens.map Token.sketch = tokens'.map Token.sketch := by
  have through : Token.sketch ∘ Locations.unplaced = Token.sketch := rfl
  rw [← through, ← List.map_map, same, List.map_map]

namespace Resolver

variable {tokens out : Tokens}

/-! ## The passes in a row -/

theorem runPasses_cons_eq {pass : Pass} {later : List Pass} {middle : Tokens}
    (first : pass.apply tokens = .ok middle) :
    runPasses (pass :: later) tokens = runPasses later middle := by
  simp only [runPasses, List.foldlM_cons, first]
  rfl

theorem runPasses_append {front later : List Pass} {middle : Tokens}
    (first : runPasses front tokens = .ok middle) :
    runPasses (front ++ later) tokens = runPasses later middle := by
  rw [runPasses, runPasses] at *
  rw [List.foldlM_append, first]
  rfl

/-- The passes that close calls and indexes, on what they have read. -/
theorem runPasses_closers_eq {called closed : Tokens}
    (calls : Closers.close Closers.call (Statements.dropLeading tokens) = .ok called)
    (indexes : Closers.close Closers.index called = .ok closed) :
    runPasses (Pass.order.take 3) tokens = .ok closed := by
  have first : Pass.leadingNewlines.apply tokens = .ok (Statements.dropLeading tokens) := rfl
  have second : Pass.closeCalls.apply (Statements.dropLeading tokens) = .ok called := calls
  have third : Pass.closeIndexes.apply called = .ok closed := indexes
  have taken : Pass.order.take 3 = [.leadingNewlines, .closeCalls, .closeIndexes] := rfl
  rw [taken, runPasses_cons_eq first, runPasses_cons_eq second, runPasses_cons_eq third]
  rfl

/-- After the mapping pass nothing can fail. -/
theorem runPasses_mappings_eq (tokens : Tokens) :
    runPasses (Pass.order.drop 4) tokens = (Braces.markMappings tokens).map fun marked =>
      Locations.backfill (Statements.terminated marked) := by
  have left : Pass.order.drop 4 = [.mappingLiterals, .terminators, .locationBackfill] := rfl
  rw [left, runPasses, List.foldlM_cons, Pass.apply]
  cases Braces.markMappings tokens with
  | error fault => rfl
  | ok marked =>
      have terminators : Pass.terminators.apply marked = .ok (Statements.terminated marked) :=
        Statements.terminateBlocks_eq marked
      exact runPasses_cons_eq terminators

/-- All seven passes, one on the outcome of the other. -/
theorem runPasses_order_eq_ok_iff : runPasses Pass.order tokens = .ok out ↔
    ∃ called closed trailing marked,
      Closers.close Closers.call (Statements.dropLeading tokens) = .ok called ∧
      Closers.close Closers.index called = .ok closed ∧
      Conditionals.trailed closed = .ok trailing ∧
      Braces.markMappings trailing = .ok marked ∧
      Locations.backfill (Statements.terminated marked) = out := by
  constructor
  · intro ran
    obtain ⟨stream, leading, ran⟩ := runPasses_cons ran
    obtain ⟨called, calls, ran⟩ := runPasses_cons ran
    obtain ⟨closed, indexes, ran⟩ := runPasses_cons ran
    obtain ⟨trailing, trails, ran⟩ := runPasses_cons ran
    obtain ⟨marked, marks, ran⟩ := runPasses_cons ran
    obtain ⟨ended, terminators, ran⟩ := runPasses_cons ran
    obtain ⟨placed, locations, ran⟩ := runPasses_cons ran
    rw [Pass.apply, Conditionals.markTrailing_eq_trailed] at trails
    rw [Pass.apply, Statements.terminateBlocks_eq] at terminators
    obtain rfl := Except.ok.inj leading
    obtain rfl := Except.ok.inj terminators
    obtain rfl := Except.ok.inj locations
    exact ⟨called, closed, trailing, marked, calls, indexes, trails, marks, runPasses_nil ran⟩
  · rintro ⟨called, closed, trailing, marked, calls, indexes, trails, marks, rfl⟩
    have conditionals : Pass.trailingConditionals.apply closed = .ok trailing := by
      rw [Pass.apply, Conditionals.markTrailing_eq_trailed, trails]
    have split : Pass.order =
        Pass.order.take 3 ++ .trailingConditionals :: Pass.order.drop 4 := rfl
    rw [split, runPasses_append (runPasses_closers_eq calls indexes),
      runPasses_cons_eq conditionals, runPasses_mappings_eq, marks]
    rfl

/-! ## Whole runs -/

/-- A full run is all seven passes and the balance check. -/
theorem full_run_eq_ok_iff : full.run tokens = .ok out ↔
    runPasses Pass.order tokens = .ok out ∧ ensureBalance out = .ok () := by
  have passes : full.passes = Pass.order := rfl
  have verifies : full.verifies = true := rfl
  simp only [run, passes, verifies, if_true]
  cases runPasses Pass.order tokens with
  | error fault =>
      constructor
      · intro done
        cases done
      · intro done
        cases done.1
  | ok resolved =>
      simp only [bind, Except.bind, pure, Except.pure, Except.ok.injEq]
      cases balance : ensureBalance resolved with
      | error fault =>
          constructor
          · intro done
            cases done
          · rintro ⟨rfl, done⟩
            rw [balance] at done
            cases done
      | ok _ =>
          constructor
          · intro done
            obtain rfl := Except.ok.inj done
            exact ⟨rfl, balance⟩
          · intro done
            rw [done.1]

/-- A run of all seven passes is the run of a resolver that does not verify balance. -/
theorem unverified_run_eq (tokens : Tokens) :
    run ⟨none, false⟩ tokens = runPasses Pass.order tokens := by
  have passes : passes ⟨none, false⟩ = Pass.order := rfl
  have verifies : verifies ⟨none, false⟩ = false := rfl
  simp only [run, passes, verifies, Bool.false_eq_true, if_false]
  cases runPasses Pass.order tokens <;> rfl

/-- What goes on from a stream without its leading terminators does not start with one. -/
theorem starts_of_goes (goes : Goes (Statements.dropLeading tokens) out) : Starts out := by
  have lead := Statements.starts_dropLeading tokens
  generalize Statements.dropLeading tokens = stream at lead goes
  cases goes with
  | nil =>
      intro t first
      cases first
  | keep kept later =>
      rename_i t u input outcome
      rintro w first
      obtain rfl : u = w := by simpa using first
      have notFirst := lead t rfl
      rcases kept.tag with tag | change
      · rwa [← tag]
      · have fixed : ∀ p ∈ Tag.retags, p.2 ≠ .terminator := by decide
        exact fixed _ change
  | insert added later =>
      rename_i u outcome
      rintro w first
      obtain rfl : u = w := by simpa using first
      rcases added with early | ⟨brace, -, -, ⟨made, -⟩ | ⟨-, p, before, -⟩⟩ | ⟨p, _, _, before, -⟩
      · rcases early.tag with tag | tag <;> rw [tag] <;> decide
      · rw [made]
        show Tag.indent ≠ .terminator
        decide
      · cases before
      · cases before
  | empty tag spelled opener closer starts ends later =>
      rename_i p q input outcome
      rintro w first
      obtain rfl : p = w := by simpa using first
      rw [starts]
      decide

/-- All that the seven passes leave behind, in balance or not. -/
theorem arranged_of_runPasses (ran : runPasses Pass.order tokens = .ok out) :
    Starts out ∧
      (∃ forest : Forest Token, forest.Loose ∧ Braces.hasColon forest = false ∧
        Braces.Settled forest ∧ forest.flatten.map Token.sketch = out.map Token.sketch) ∧
      Statements.Terminated out ∧ ∀ t ∈ out, Locations.Placed t := by
  have starts := starts_of_goes (goes_of_run ((unverified_run_eq tokens).trans ran))
  -- the last three passes decide all but the start, and the last one keeps the sketch
  obtain ⟨_, _, _, settled, -, -, -, mapping, rfl⟩ := runPasses_order_eq_ok_iff.1 ran
  have same := Locations.map_unplaced_settleFrom none (Statements.terminated settled)
  obtain ⟨forest, loose, -, noColon, -, rfl⟩ := Braces.markMappings_eq_ok_iff.1 mapping
  have loose' := Braces.mark_loose loose []
  refine ⟨starts, ⟨Statements.terminate none (Braces.mark [] forest),
    Statements.loose_terminate loose' _, ?_,
    Statements.settled_terminate (Braces.settled_mark loose []) _, ?_⟩, ?_,
    Locations.settleFrom_placed _ _⟩
  · rw [Statements.hasColon_terminate, Braces.hasColon_mark, noColon]
  · have flat := Statements.terminated_flatten loose' []
    rw [List.append_nil] at flat
    rw [Locations.backfill, map_sketch_of_unplaced same, flat]
    simp [Statements.terminated]
  · rw [← Statements.terminated_sketch, Locations.backfill, map_sketch_of_unplaced same,
      Statements.terminated_sketch]
    exact Statements.terminated_terminated _

/-- **A run resolves its stream.** -/
theorem resolved_of_run (done : full.run tokens = .ok out) : Resolved out := by
  obtain ⟨ran, balanced⟩ := full_run_eq_ok_iff.1 done
  obtain ⟨starts, settled, terminated, placed⟩ := arranged_of_runPasses ran
  exact ⟨starts, balanced, settled, terminated, placed⟩

end Resolver

/-! ## Conditionals that stay -/

namespace Conditionals

/-- No terminator stands in a condition behind this token, and no block but the one-line body
of something in it. -/
def Unbroken : Token → Forest Token → Prop
  | _, .nil => True
  | _, .leaf t next => t.tag ≠ .terminator ∧ Unbroken t next
  | previous, .pair o _ c next =>
      (o.tag = .indent → previous.tag.isSingleLiner = true) ∧ Unbroken c next

/-- A conditional leads a block: after its keyword comes a condition, and then a block that is
no one-line body and was not put there, unless for a `then`. -/
def LeadsBody (keyword : Token) (after : Tokens) : Prop :=
  ∃ (condition : Forest Token) (body : Token) (rest : Tokens), condition.Level ∧
    after = condition.flatten ++ body :: rest ∧ Unbroken keyword condition ∧
    body.tag = .indent ∧ (condition.flatten.getLastD keyword).tag.isSingleLiner = false ∧
    (body.provenance ≠ .generated ∨ body.fromThen = true)

theorem quiet_iff_unbroken {condition : Forest Token} (level : condition.Level)
    (previous : Token) (before after : Tokens) :
    condition.Quiet endsCondition (previous :: before) after ↔ Unbroken previous condition := by
  induction condition generalizing previous before with
  | nil => rfl
  | leaf t next ih =>
      obtain ⟨⟨notOpener, -⟩, later⟩ := level
      have notIndent : t.tag ≠ .indent := by
        intro tag
        rw [tag] at notOpener
        cases notOpener
      have silent : endsCondition (previous :: before) t (next.flatten ++ after) = false ↔
          t.tag ≠ .terminator := by
        unfold endsCondition
        split <;> simp_all
      simp only [Forest.Quiet, Unbroken, silent, ih later]
  | pair o inside c next _ ih =>
      obtain ⟨⟨opens, -⟩, -, outer⟩ := level
      have notTerminator : o.tag ≠ .terminator := by
        intro tag
        rw [tag] at opens
        cases opens
      have silent : ∀ rest, endsCondition (previous :: before) o rest = false ↔
          (o.tag = .indent → previous.tag.isSingleLiner = true) := by
        intro rest
        unfold endsCondition
        split <;> simp_all
      simp only [Forest.Quiet, Unbroken, silent, ih outer]

/-- A conditional is taken for a leading one just if it leads a block. -/
theorem isTrailing_eq_false_iff (keyword : Token) (after : Tokens) :
    isTrailing [keyword] after = .ok false ↔ LeadsBody keyword after := by
  have stops : isTrailing [keyword] after = .ok false ↔
      ∃ body, Region.StopsAt endsCondition body 0 [keyword] after ∧ ownsBody body = true := by
    simp only [← Region.after_stop_iff]
    unfold isTrailing
    split
    · rename_i i last ends
      simp [ends]
    · rename_i i ends
      simp [ends]
    · rename_i i opener ends
      simp [ends]
  rw [stops]
  have owned : ∀ body : Token, ownsBody body = true ↔
      body.tag = .indent ∧ (body.provenance ≠ .generated ∨ body.fromThen = true) := by
    intro body
    simp [ownsBody, Token.isGenerated]
  constructor
  · rintro ⟨body, ⟨condition, rest, level, split, quiet, holds⟩, owns⟩
    obtain ⟨indent, source⟩ := (owned body).1 owns
    refine ⟨condition, body, rest, level, split, (quiet_iff_unbroken level _ _ _).1 quiet, indent,
      ?_, source⟩
    simpa [endsCondition, indent] using holds
  · rintro ⟨condition, body, rest, level, split, unbroken, indent, notOneLine, source⟩
    refine ⟨body, ⟨condition, rest, level, split, (quiet_iff_unbroken level _ _ _).2 unbroken, ?_⟩,
      (owned body).2 ⟨indent, source⟩⟩
    simpa [endsCondition, indent] using notOneLine

theorem settle_eq_self_iff {t u : Token} {after : Tokens} (settled : settle t after = .ok u) :
    u = t ↔ (t.tag = .ifWord ∨ t.tag = .unlessWord → LeadsBody t after) := by
  rw [← isTrailing_eq_false_iff]
  rcases settle_cases settled with ⟨same, leads⟩ | ⟨tag, keyword, trails, rfl⟩
  · exact ⟨fun _ => leads, fun _ => same⟩
  · have words := trailing?_cases keyword
    constructor
    · intro same
      have kept : tag = t.tag := congrArg Token.tag same
      rcases words with ⟨word, rfl⟩ | ⟨word, rfl⟩ <;>
        · rw [word] at kept
          cases kept
    · intro leads
      rw [leads (words.imp And.left And.left)] at trails
      cases trails

/-- The pass leaves a stream alone just if every conditional in it leads its block. -/
theorem trailed_eq_self_iff {tokens again : Tokens} (done : trailed tokens = .ok again) :
    again = tokens ↔ ∀ front keyword after, tokens = front ++ keyword :: after →
      keyword.tag = .ifWord ∨ keyword.tag = .unlessWord → LeadsBody keyword after := by
  induction tokens generalizing again with
  | nil =>
      obtain rfl := Except.ok.inj done
      constructor
      · intro _ front keyword after split
        cases front <;> cases split
      · intro _
        rfl
  | cons t rest ih =>
      obtain ⟨u, out, settled, later, rfl⟩ := trailed_cons_cases done
      rw [List.cons.injEq, settle_eq_self_iff settled, ih later]
      constructor
      · rintro ⟨here, behind⟩ front keyword after split
        cases front with
        | nil =>
            obtain ⟨rfl, rfl⟩ := List.cons.inj split
            exact here
        | cons first front => exact behind front keyword after (List.cons.inj split).2
      · intro everywhere
        refine ⟨everywhere [] t rest rfl, ?_⟩
        intro front keyword after split
        exact everywhere (t :: front) keyword after (by rw [split]; rfl)

/-- Where no region stays open, every conditional can be told. -/
theorem exists_trailed {tokens : Tokens}
    (ends : ∀ front rest, tokens = front ++ rest → Region.Ends endsCondition rest) :
    ∃ again, trailed tokens = .ok again := by
  induction tokens with
  | nil => exact ⟨[], rfl⟩
  | cons t rest ih =>
      obtain ⟨out, later⟩ := ih fun front rest split => ends (t :: front) rest (by rw [split]; rfl)
      have told : ∃ trails, isTrailing [t] rest = .ok trails := by
        have closed := ends [t] rest rfl [t] 0
        unfold isTrailing
        split
        · exact ⟨_, rfl⟩
        · exact ⟨_, rfl⟩
        · rename_i i opener open_
          exact absurd open_ (closed i opener)
      obtain ⟨trails, told⟩ := told
      have settled : ∃ u, settle t rest = .ok u := by
        unfold settle
        split
        · exact ⟨t, rfl⟩
        · exact ⟨_, by rw [told]; rfl⟩
      obtain ⟨u, settled⟩ := settled
      exact ⟨u :: out, by simp [trailed, settled, later, Except.map]⟩

/-- In a balanced stream no region stays open. -/
theorem exists_trailed_of_balanced {tokens : Tokens} (balanced : ensureBalance tokens = .ok ()) :
    ∃ again, trailed tokens = .ok again := by
  obtain ⟨level, nests, rfl⟩ := (ensureBalance_iff_forest _).1 balanced
  refine exists_trailed fun front rest split => ?_
  have nothing : Region.Ends endsCondition [] := Region.ends_nil
  have within := nothing.within nests.level split
  rwa [List.append_nil] at within

theorem sketch_settle {t u : Token} {after : Tokens} (settled : settle t after = .ok u) :
    u.sketch = t.sketch ∧ (Locations.Placed t → Locations.Placed u) := by
  rcases settle_cases settled with ⟨rfl, -⟩ | ⟨tag, keyword, -, rfl⟩
  · exact ⟨rfl, id⟩
  · refine ⟨?_, id⟩
    have same : tag.leading = t.tag.leading := by
      rcases trailing?_cases keyword with ⟨word, rfl⟩ | ⟨word, rfl⟩ <;>
        · rw [word]
          rfl
    simp [Token.sketch, same]

/-- The pass keeps the sketch and every place. -/
theorem sketch_trailed {tokens again : Tokens} (done : trailed tokens = .ok again) :
    again.map Token.sketch = tokens.map Token.sketch ∧
      ((∀ t ∈ tokens, Locations.Placed t) → ∀ t ∈ again, Locations.Placed t) := by
  have each := forall₂_trailed sketch_settle done
  clear done
  induction each with
  | nil => exact ⟨rfl, id⟩
  | @cons t _ _ _ settled _ ih =>
      obtain ⟨same, placed⟩ := settled
      obtain ⟨sames, places⟩ := ih
      refine ⟨by simp only [List.map_cons, same, sames], ?_⟩
      intro all w member
      rcases List.mem_cons.1 member with rfl | within
      · exact placed (all t (.head _))
      · exact places (fun x there => all x (.tail _ there)) w within

end Conditionals

/-! ## The second run -/

namespace Resolver

variable {tokens out : Tokens}

/-- Streams of one sketch balance together. -/
theorem ensureBalance_of_sketch {tokens tokens' : Tokens}
    (same : tokens'.map Token.sketch = tokens.map Token.sketch)
    (balanced : ensureBalance tokens = .ok ()) : ensureBalance tokens' = .ok () := by
  obtain ⟨forest, nests, rfl⟩ := (ensureBalance_iff_forest _).1 balanced
  rw [← Forest.flatten_map] at same
  obtain ⟨above, rfl, mapped⟩ := Forest.exists_map_eq Token.sketch _ _ same
  refine (ensureBalance_iff_forest _).2 ⟨above, ?_, rfl⟩
  rw [← balanced_sketch, mapped, balanced_sketch]
  exact nests

/-- A stream with the sketch of a settled forest is one itself. -/
theorem exists_settled_of_sketch {tokens : Tokens} {forest : Forest Token} (loose : forest.Loose)
    (noColon : Braces.hasColon forest = false) (settled : Braces.Settled forest)
    (same : tokens.map Token.sketch = forest.flatten.map Token.sketch) :
    ∃ above : Forest Token, above.flatten = tokens ∧ above.Loose ∧
      Braces.hasColon above = false ∧ Braces.Settled above := by
  rw [← Forest.flatten_map] at same
  obtain ⟨above, flat, mapped⟩ := Forest.exists_map_eq Token.sketch _ _ same
  refine ⟨above, flat, ?_, ?_, ?_⟩
  · rw [← loose_sketch, mapped, loose_sketch]
    exact loose
  · rw [← Braces.hasColon_sketch, mapped, Braces.hasColon_sketch]
    exact noColon
  · rw [← Braces.settled_sketch, mapped, Braces.settled_sketch]
    exact settled

/-- Streams of one sketch are left alone by the mapping pass together. -/
theorem markMappings_of_sketch {tokens : Tokens} {forest : Forest Token} (loose : forest.Loose)
    (noColon : Braces.hasColon forest = false) (settled : Braces.Settled forest)
    (same : tokens.map Token.sketch = forest.flatten.map Token.sketch) :
    Braces.markMappings tokens = .ok tokens := by
  obtain ⟨above, rfl, loose', noColon', settled'⟩ :=
    exists_settled_of_sketch loose noColon settled same
  exact Braces.markMappings_eq_self loose' noColon' settled'

/-- **On a resolved stream only conditionals are retagged.** -/
theorem run_of_resolved (resolved : Resolved tokens) :
    ∃ again, Conditionals.trailed tokens = .ok again ∧ full.run tokens = .ok again := by
  obtain ⟨starts, balanced, ⟨forest, loose, noColon, settled, same⟩, terminated, placed⟩ := resolved
  obtain ⟨called, calls, indexes⟩ := Erasure.close_balanced balanced
  obtain ⟨again, trails⟩ := Conditionals.exists_trailed_of_balanced balanced
  obtain ⟨sketched, places⟩ := Conditionals.sketch_trailed trails
  refine ⟨again, trails, full_run_eq_ok_iff.2 ⟨?_, ensureBalance_of_sketch sketched balanced⟩⟩
  have leading : Statements.dropLeading tokens = tokens := Statements.dropLeading_eq_self starts
  have mappings : Braces.markMappings again = .ok again :=
    markMappings_of_sketch loose noColon settled (sketched.trans same.symm)
  have terminators : Statements.terminated again = again := by
    rw [Statements.terminated_eq_self]
    rw [← Statements.terminated_sketch, sketched, Statements.terminated_sketch]
    exact terminated
  have locations : Locations.backfill again = again :=
    Locations.settleFrom_eq_self (places placed) none
  refine runPasses_order_eq_ok_iff.2
    ⟨called, tokens, again, again, ?_, indexes, trails, mappings, ?_⟩
  · rw [leading]
    exact calls
  · rw [terminators, locations]

/-- **When a second run changes nothing.**  The outcome of a run always resolves again, and it
comes back as it is just if every conditional left in it leads its block. -/
theorem run_run_eq_iff (tokens out : Tokens) (done : full.run tokens = .ok out) :
    ∃ again, full.run out = .ok again ∧
      (again = out ↔ ∀ front keyword after, out = front ++ keyword :: after →
        keyword.tag = .ifWord ∨ keyword.tag = .unlessWord →
          Conditionals.LeadsBody keyword after) := by
  obtain ⟨again, trails, second⟩ := run_of_resolved (resolved_of_run done)
  exact ⟨again, second, Conditionals.trailed_eq_self_iff trails⟩

/-- A conditional at the end of a statement, in front of a mapping. -/
def conditionalMapping (keyword openBrace closeBrace : Tag) : Tokens :=
  [.onFirstLineAs .identifier "a" 0, .onFirstLineAs keyword "if" 2,
   .onFirstLineAs openBrace "\x7b" 5, .onFirstLineAs .identifier "b" 15,
   .onFirstLine .colon 17, .onFirstLineAs .number "1" 19, .onFirstLineAs closeBrace "\x7d" 21]

theorem run_run_eq_iff_conditionalMapping :
    full.run (conditionalMapping .ifWord .indent .outdent) =
        .ok (conditionalMapping .ifWord .mappingStart .mappingEnd) ∧
      ∃ again, full.run (conditionalMapping .ifWord .mappingStart .mappingEnd) = .ok again ∧
        (again = conditionalMapping .ifWord .mappingStart .mappingEnd ↔
          ∀ front keyword after,
            conditionalMapping .ifWord .mappingStart .mappingEnd = front ++ keyword :: after →
              keyword.tag = .ifWord ∨ keyword.tag = .unlessWord →
                Conditionals.LeadsBody keyword after) :=
  ⟨rfl, run_run_eq_iff (conditionalMapping .ifWord .indent .outdent) _ rfl⟩

/-- The brace is taken for the conditional's block before it is known to be a mapping's, so only
the second run finds that the conditional trails. -/
theorem run_run_ne_conditionalMapping :
    ¬∀ tokens out, full.run tokens = .ok out → full.run out = .ok out := by
  intro unchanged
  have first : full.run (conditionalMapping .ifWord .indent .outdent) =
      .ok (conditionalMapping .ifWord .mappingStart .mappingEnd) := rfl
  have second : full.run (conditionalMapping .ifWord .mappingStart .mappingEnd) =
      .ok (conditionalMapping .postIf .mappingStart .mappingEnd) := rfl
  rw [unchanged _ _ first] at second
  have keyword := congrArg (List.map Token.tag) (Except.ok.inj second)
  revert keyword
  decide

end Resolver

end TokenLayout
