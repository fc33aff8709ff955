/-
# TokenLayout.Proofs.Blame -- which opener an unclosed fault names

Three passes report an opener that nothing closes.  Before they do, leading terminators have been
dropped, and closers retagged and inserted, but a closer put into a stream leaves no opener open
that was not open without it.  So what a pass finds open was open in the stream that came in
(`LeftBy.openIn`), and in no stretch behind it do closers outnumber openers
(`le_height_of_prefix`).

Nor is a call blamed once calls are closed, or an index once indexes are: each meets a closer
then, and no later pass takes it away (`LeftBy.step`, `LeftBy.run`).  While the calls of a stream
are being closed, those behind the opener at hand are closed already, so the opener at fault is
no call there either (`openIn_of_fails`).

Main statement: `Resolver.run_unclosed`.
-/
import TokenLayout.Proofs.Counting
import TokenLayout.Proofs.Decisions
import TokenLayout.Proofs.Indexes
import TokenLayout.Proofs.Pieces
import TokenLayout.Proofs.Routes

namespace TokenLayout

set_option autoImplicit false

/-- No stretch at the start of a stream has more closers to spare than there are strays. -/
theorem le_height_of_prefix {tokens stretch : Tokens} (within : stretch <+: tokens) :
    -((strays tokens).length : Int) ≤ height stretch := by
  induction tokens generalizing stretch with
  | nil =>
      obtain rfl := List.prefix_nil.1 within
      exact Int.le_refl 0
  | cons t rest ih =>
      rcases List.prefix_cons_iff.1 within with rfl | ⟨later, rfl, behind⟩
      · have empty : height [] = 0 := rfl
        omega
      · have bound := ih behind
        rw [height_cons]
        rcases t.opens_or_closes_or_alone with opens | closes | alone
        · rw [strays_opener opens, height_opener opens, List.length_tail]
          omega
        · rw [strays_closer closes, height_closer closes, List.length_cons]
          omega
        · rw [strays_alone alone, height_alone alone]
          omega

/-! ## Faults of single passes -/

/-- Mappings have faults of their own. -/
theorem Braces.markMappings_ne_unclosed (tokens : Tokens) (tag : Tag) (location : Location) :
    markMappings tokens ≠ .error (.unclosed tag location) := by
  intro failed
  obtain ⟨forest, loose, facing, rfl⟩ := exists_loose tokens
  cases colon : hasColon forest with
  | true =>
      obtain ⟨before, t, after, fault, -, faults, blamed⟩ := exists_firstBare loose facing colon
      obtain rfl := Except.error.inj (blamed.symm.trans failed)
      rcases faults with ⟨-, other⟩ | ⟨-, other⟩ <;> cases other
  | false =>
      rw [markMappings_eq_mark loose colon] at failed
      cases failed

/-- So has the balance check. -/
theorem ensureBalance_ne_unclosed (tokens : Tokens) (tag : Tag) (location : Location) :
    ensureBalance tokens ≠ .error (.unclosed tag location) := by
  intro failed
  cases verdict tokens with
  | nested nested =>
      rw [ensureBalance_eq_ok_iff.2 nested] at failed
      cases failed
  | closer front t rest split misplaced =>
      rw [split, misplaced.ensureBalance] at failed
      cases failed
  | opener front t rest split leftOpen =>
      rw [split, leftOpen.ensureBalance] at failed
      cases failed

namespace Pass

/-- The opener a pass reports as unclosed is open in the stream the pass finds, and of no construct
that the pass closes. -/
theorem openIn_of_fails {p : Pass} {tokens : Tokens} {tag : Tag} {location : Location}
    (fails : p.apply tokens = .error (.unclosed tag location)) :
    (∃ o, OpenIn tokens o ∧ o.tag = tag ∧ o.reportedAt = location) ∧
      ((p = .closeCalls ∧ tag ≠ .callStart) ∨ (p = .closeIndexes ∧ tag ≠ .indexStart) ∨
        p = .trailingConditionals) := by
  cases p with
  | leadingNewlines => cases fails
  | closeCalls =>
      obtain ⟨o, open_, other, blamed⟩ := Closers.openIn_of_close_error Closers.call_stops fails
      obtain ⟨rfl, rfl⟩ := Fault.unclosed.inj blamed
      exact ⟨⟨o, open_, rfl, rfl⟩, .inl ⟨rfl, other⟩⟩
  | closeIndexes =>
      obtain ⟨o, open_, other, blamed⟩ := Closers.openIn_of_close_error Closers.index_stops fails
      obtain ⟨rfl, rfl⟩ := Fault.unclosed.inj blamed
      exact ⟨⟨o, open_, rfl, rfl⟩, .inr (.inl ⟨rfl, other⟩)⟩
  | trailingConditionals =>
      obtain ⟨i, o, stays, blamed⟩ := Conditionals.exists_of_markTrailing_error fails
      obtain ⟨between, rest, -, opens, split, strayless⟩ := stays.outermost
      obtain ⟨rfl, rfl⟩ := Fault.unclosed.inj blamed
      have open_ : OpenIn (tokens.drop (i + 1)) o := ⟨between.flatten, rest, split, opens, strayless⟩
      have whole := open_.behind (tokens.take (i + 1))
      rw [List.take_append_drop] at whole
      exact ⟨⟨o, whole, rfl, rfl⟩, .inr (.inr rfl)⟩
  | mappingLiterals => exact absurd fails (Braces.markMappings_ne_unclosed tokens tag location)
  | terminators =>
      rw [apply, Statements.terminateBlocks_eq] at fails
      cases fails
  | locationBackfill => cases fails

/-- The passes that run before the last one that reports an unclosed opener. -/
def early : List Pass :=
  [leadingNewlines, closeCalls, closeIndexes]

/-- An early pass leaves no opener open that was not open before. -/
theorem openIn_of_apply {p : Pass} (isEarly : p ∈ early) {tokens out : Tokens}
    (ran : p.apply tokens = .ok out) {o : Token} (open_ : OpenIn out o) : OpenIn tokens o := by
  have oneOf : p = .leadingNewlines ∨ p = .closeCalls ∨ p = .closeIndexes := by
    simpa [early] using isEarly
  rcases oneOf with rfl | rfl | rfl
  · obtain rfl := Except.ok.inj ran
    have whole := open_.behind (tokens.takeWhile (·.tag == .terminator))
    rwa [Statements.dropLeading, List.takeWhile_append_dropWhile] at whole
  · exact (Closers.openIn_of_closeOnto Closers.call_stops ran open_).1
  · exact (Closers.openIn_of_closeOnto Closers.index_stops ran open_).1

end Pass

/-! ## What the passes before have left open -/

/-- What passes have left open of a stream: only what was open in it, and no construct that they
have closed. -/
structure LeftBy (done : List Pass) (tokens middle : Tokens) : Prop where
  openIn : ∀ o, OpenIn middle o → OpenIn tokens o
  calls : Pass.closeCalls ∈ done → ∀ o, OpenIn middle o → o.tag ≠ .callStart
  indexes : Pass.closeIndexes ∈ done → ∀ o, OpenIn middle o → o.tag ≠ .indexStart

namespace LeftBy

variable {done passes : List Pass} {tokens middle out : Tokens}

/-- One more pass. -/
theorem step {p : Pass} (left : LeftBy done tokens middle) (isEarly : p ∈ Pass.early)
    (ran : p.apply middle = .ok out) : LeftBy (done ++ [p]) tokens out := by
  have before := fun o => Pass.openIn_of_apply isEarly ran (o := o)
  refine ⟨fun o open_ => left.openIn o (before o open_), fun member o open_ => ?_,
    fun member o open_ => ?_⟩
  · rcases List.mem_append.1 member with earlier | now
    · exact left.calls earlier o (before o open_)
    · obtain rfl := List.mem_singleton.1 now
      exact (Closers.openIn_of_closeOnto Closers.call_stops ran open_).2
  · rcases List.mem_append.1 member with earlier | now
    · exact left.indexes earlier o (before o open_)
    · obtain rfl := List.mem_singleton.1 now
      exact (Closers.openIn_of_closeOnto Closers.index_stops ran open_).2

/-- And a whole run of them. -/
theorem run (left : LeftBy done tokens middle) (areEarly : ∀ p ∈ passes, p ∈ Pass.early)
    (ran : Resolver.runPasses passes middle = .ok out) : LeftBy (done ++ passes) tokens out := by
  induction passes generalizing done middle with
  | nil =>
      obtain rfl := Resolver.runPasses_nil ran
      rwa [List.append_nil]
  | cons p passes ih =>
      obtain ⟨next, first, later⟩ := Resolver.runPasses_cons ran
      have onward := ih (left.step (areEarly p (.head _)) first)
        (fun q member => areEarly q (.tail _ member)) later
      rwa [List.append_assoc] at onward

end LeftBy

namespace Resolver

/-- The passes before a pass are those before it in the order of all passes. -/
theorem eq_takeWhile_of_passes {r : Resolver} {done later : List Pass} {p : Pass}
    (split : r.passes = done ++ p :: later) : done = Pass.order.takeWhile (· ≠ p) := by
  obtain ⟨n, taken⟩ : ∃ n, r.passes = Pass.order.take n := by
    cases stop : r.stopAfter with
    | none => exact ⟨7, by simp [passes, stop, Pass.order]⟩
    | some last => exact ⟨Pass.order.idxOf last + 1, by simp [passes, stop]⟩
  have whole : Pass.order = done ++ p :: (later ++ Pass.order.drop n) := by
    rw [← List.cons_append, ← List.append_assoc, ← split, taken, List.take_append_drop]
  have once : Pass.order.Nodup := by decide
  have other : ∀ q ∈ done, (decide (q ≠ p)) = true := by
    rintro q member
    rw [whole] at once
    have apart := (List.nodup_append.1 once).2.2 q member p (.head _)
    simpa using apart
  rw [whole, List.takeWhile_append_of_pos other, List.takeWhile_cons_of_neg (by simp),
    List.append_nil]

/-- **An unclosed fault is sound.**  The stream that comes in has an opener with the tag and the
location reported, and in no stretch right behind it do closers outnumber openers.  The failing
pass is one of three; the opener is no call, and no index unless calls were being closed. -/
theorem run_unclosed {r : Resolver} {tokens : Tokens} {tag : Tag} {location : Location}
    (failed : r.run tokens = .error (.unclosed tag location)) :
    (∃ front o rest, tokens = front ++ o :: rest ∧ o.tag.isOpener = true ∧ o.tag = tag ∧
      o.reportedAt = location ∧ ∀ stretch, stretch <+: rest → 0 ≤ height stretch) ∧
    ∃ p : Pass, r.FailsAt tokens p.name (.unclosed tag location) ∧
      (p = .closeCalls ∨ p = .closeIndexes ∨ p = .trailingConditionals) ∧ tag ≠ .callStart ∧
        (tag = .indexStart → p = .closeCalls) := by
  obtain ⟨stage, fault, failsAt, same⟩ : ∃ stage fault, r.FailsAt tokens stage fault ∧
      fault = .unclosed tag location := by
    rcases Chain.passByPass_cases r tokens with ⟨out, ran, -⟩ | ⟨stage, fault, failsAt, ran, -⟩
    · rw [failed] at ran
      cases ran
    · exact ⟨stage, fault, failsAt, Except.error.inj (ran.symm.trans failed)⟩
  have where_ := failsAt
  cases failsAt with
  | balance _ _ fails =>
      subst same
      exact absurd fails (ensureBalance_ne_unclosed _ tag location)
  | @pass done later p middle fault split ran fails =>
      subst same
      obtain ⟨⟨o, open_, rfl, rfl⟩, blamed⟩ := Pass.openIn_of_fails fails
      have isOne : p = .closeCalls ∨ p = .closeIndexes ∨ p = .trailingConditionals :=
        blamed.imp And.left (Or.imp_left And.left)
      obtain rfl := eq_takeWhile_of_passes split
      have areEarly : ∀ q ∈ Pass.order.takeWhile (· ≠ p), q ∈ Pass.early := by
        rcases isOne with rfl | rfl | rfl <;> decide
      have start : LeftBy [] tokens tokens := ⟨fun _ open_ => open_, nofun, nofun⟩
      have left := start.run areEarly ran
      rw [List.nil_append] at left
      obtain ⟨front, rest, whole, opens, stays⟩ := left.openIn o open_
      refine ⟨⟨front, o, rest, whole, opens, rfl, rfl, fun stretch within => ?_⟩,
        p, where_, isOne, ?_⟩
      · have bound := le_height_of_prefix within
        rw [stays] at bound
        exact bound
      · rcases blamed with ⟨rfl, notCall⟩ | ⟨rfl, notIndex⟩ | rfl
        · exact ⟨notCall, fun _ => rfl⟩
        · exact ⟨left.calls (by decide) o open_, fun index => absurd index notIndex⟩
        · exact ⟨left.calls (by decide) o open_,
            fun index => absurd index (left.indexes (by decide) o open_)⟩

/-- A block with an index left open in it, and behind it a condition with a group that nothing
closes. -/
def openCondition : Tokens :=
  [.onFirstLine .terminator 0, .onFirstLine .indent 1, .onFirstLine .indexStart 2,
   .onFirstLineAs .number "0" 3, .onFirstLine .outdent 4, .onFirstLine .ifWord 5,
   .onFirstLine .parenStart 6, .onFirstLineAs .identifier "a" 7]

theorem run_unclosed_openCondition :
    Resolver.full.run openCondition = .error (.unclosed .parenStart (.point ⟨0, 6⟩)) ∧
      ∃ front o rest, openCondition = front ++ o :: rest ∧ o.tag.isOpener = true ∧
        o.tag = .parenStart ∧ o.reportedAt = .point ⟨0, 6⟩ ∧
          ∀ stretch, stretch <+: rest → 0 ≤ height stretch := by
  have failed : Resolver.full.run openCondition = .error (.unclosed .parenStart (.point ⟨0, 6⟩)) :=
    rfl
  exact ⟨failed, (run_unclosed failed).1⟩

end Resolver

end TokenLayout
