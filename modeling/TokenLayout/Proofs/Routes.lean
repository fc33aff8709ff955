/-
# TokenLayout.Proofs.Routes -- all routes to a resolved stream agree

A resolver runs its passes in a loop and checks balance behind them.  The same can be had as
a chain of stages, one for each pass and one for the balance check, and both can stand behind
the reader of notation.  The two differ in nothing but the stage they blame: a resolver is one
stage, while the chain names the pass that failed, or the check (`Resolver.FailsAt`).

Main statement: `Chain.routes_agree`.

The edits of a session are one more route: those of passes compose to a run of the passes
(`Edit.foldlM_passes`), and the edit of a resolver is its passes and the balance check.
-/
import TokenLayout.Session
import TokenLayout.Source
import TokenLayout.Proofs.Following

namespace TokenLayout

set_option autoImplicit false

/-! ## Where a run fails -/

/-- The stage in which the run of a resolver fails, and the fault: the first pass that fails on
what the passes before it made of the stream, or the balance check behind all of them. -/
inductive Resolver.FailsAt (r : Resolver) (tokens : Tokens) : (stage : String) → Fault → Prop
  | pass {done later : List Pass} {p : Pass} {middle : Tokens} {fault : Fault}
      (split : r.passes = done ++ p :: later) (ran : runPasses done tokens = .ok middle)
      (fails : p.apply middle = .error fault) : FailsAt r tokens p.name fault
  | balance {resolved : Tokens} {fault : Fault} (verifies : r.verifies = true)
      (ran : runPasses r.passes tokens = .ok resolved)
      (fails : ensureBalance resolved = .error fault) : FailsAt r tokens "balance" fault

/-- Balance is verified if it is asked for and all passes run. -/
theorem Resolver.verifies_iff (r : Resolver) :
    r.verifies = true ↔ r.verifyBalance = true ∧ r.passes = Pass.order := by
  have whole : r.passes.length = Pass.order.length ↔ r.passes = Pass.order := by
    refine ⟨fun same => ?_, congrArg List.length⟩
    unfold passes at same ⊢
    split
    · rename_i last stop
      rw [stop] at same
      exact (List.take_sublist _ _).eq_of_length same
    · rfl
  simp [verifies, whole]

/-- The same failure, blamed on another stage. -/
def StageError.under (stage : String) : StageError → StageError
  | failed _ fault => failed stage fault
  | e => e

namespace Chain

variable {passes : List Pass} {tokens : Tokens} (later : Chain)

/-- Stages behind passes that succeed. -/
theorem run_passes_ok {resolved : Tokens} (done : Resolver.runPasses passes tokens = .ok resolved) :
    run (passes.map .pass ++ later) tokens = run later resolved := by
  induction passes generalizing tokens with
  | nil =>
      obtain rfl := Resolver.runPasses_nil done
      rfl
  | cons pass passes ih =>
      obtain ⟨middle, first, onward⟩ := Resolver.runPasses_cons done
      rw [List.map_cons, List.cons_append, run, List.foldlM_cons, Stage.run, first]
      exact ih onward

/-- Of passes that fail the first one to do so is named. -/
theorem run_passes_error {fault : Fault}
    (failed : Resolver.runPasses passes tokens = .error fault) :
    ∃ done p rest middle, passes = done ++ p :: rest ∧
      Resolver.runPasses done tokens = .ok middle ∧ p.apply middle = .error fault ∧
      run (passes.map .pass ++ later) tokens = .error (.failed p.name fault) := by
  induction passes generalizing tokens with
  | nil => cases failed
  | cons pass passes ih =>
      rw [Resolver.runPasses, List.foldlM_cons] at failed
      rw [List.map_cons, List.cons_append, run, List.foldlM_cons, Stage.run]
      cases first : pass.apply tokens with
      | error other =>
          rw [first] at failed
          obtain rfl := Except.error.inj failed
          exact ⟨[], pass, passes, tokens, rfl, rfl, first, rfl⟩
      | ok middle =>
          rw [first] at failed
          obtain ⟨done, p, rest, last, rfl, ran, fails, stage⟩ := ih failed
          refine ⟨pass :: done, p, rest, last, rfl, ?_, fails, stage⟩
          rw [Resolver.runPasses, List.foldlM_cons, first]
          exact ran

/-- **The resolver and its chain.**  Both return one stream, or both fail with one fault, which the
chain blames on the stage that fails. -/
theorem passByPass_cases (r : Resolver) (tokens : Tokens) :
    (∃ out, r.run tokens = .ok out ∧ (passByPass r).run tokens = .ok out) ∨
      ∃ stage fault, r.FailsAt tokens stage fault ∧ r.run tokens = .error fault ∧
        (passByPass r).run tokens = .error (.failed stage fault) := by
  cases resolved : Resolver.runPasses r.passes tokens with
  | error fault =>
      obtain ⟨done, p, rest, middle, split, ran, fails, stage⟩ :=
        run_passes_error (if r.verifies then [.balance] else []) resolved
      refine .inr ⟨p.name, fault, .pass split ran fails, ?_, stage⟩
      rw [Resolver.run, resolved]
      rfl
  | ok out =>
      have chained := run_passes_ok (if r.verifies then [.balance] else []) resolved
      rw [passByPass, chained, Resolver.run, resolved]
      cases verified : r.verifies with
      | false => exact .inl ⟨out, rfl, rfl⟩
      | true =>
          simp only [if_true, run, List.foldlM_cons, List.foldlM_nil, Stage.run, bind, Except.bind]
          cases balance : ensureBalance out with
          | ok _ => exact .inl ⟨out, rfl, rfl⟩
          | error fault =>
              exact .inr ⟨"balance", fault, .balance verified resolved balance, rfl, rfl⟩

/-- Pass by pass a run fails with the fault it fails with at once. -/
theorem passByPass_error {r : Resolver} {fault : Fault} (failed : r.run tokens = .error fault) :
    ∃ stage, (passByPass r).run tokens = .error (.failed stage fault) := by
  rcases passByPass_cases r tokens with ⟨out, ran, -⟩ | ⟨stage, other, -, ran, chained⟩
  · rw [failed] at ran
    cases ran
  · rw [failed] at ran
    obtain rfl := Except.error.inj ran
    exact ⟨stage, chained⟩

end Chain

/-- A run fails in one stage with one fault. -/
theorem Resolver.FailsAt.run {r : Resolver} {tokens : Tokens} {stage : String} {fault : Fault}
    (fails : r.FailsAt tokens stage fault) :
    (Chain.passByPass r).run tokens = .error (.failed stage fault) := by
  cases fails with
  | @pass done later p middle fault split ran fails =>
      have behind : r.passes.map Stage.pass = done.map .pass ++ .pass p :: later.map .pass := by
        rw [split, List.map_append, List.map_cons]
      rw [Chain.passByPass, behind, List.append_assoc, Chain.run_passes_ok _ ran, List.cons_append,
        Chain.run, List.foldlM_cons, Stage.run, fails]
      rfl
  | @balance resolved fault verifies ran fails =>
      rw [Chain.passByPass, Chain.run_passes_ok _ ran, verifies, if_pos rfl, Chain.run,
        List.foldlM_cons, Stage.run, fails]
      rfl

namespace Chain

theorem passByPass_eq_error_iff (r : Resolver) (tokens : Tokens) (e : StageError) :
    (passByPass r).run tokens = .error e ↔
      ∃ stage fault, r.FailsAt tokens stage fault ∧ e = .failed stage fault := by
  constructor
  · intro failed
    rcases passByPass_cases r tokens with ⟨out, -, chained⟩ | ⟨stage, fault, fails, -, chained⟩
    · rw [failed] at chained
      cases chained
    · rw [failed] at chained
      exact ⟨stage, fault, fails, Except.error.inj chained⟩
  · rintro ⟨stage, fault, fails, rfl⟩
    exact fails.run

theorem resolve_run_eq (r : Resolver) (tokens : Tokens) :
    (Stage.resolve r).run tokens = ((passByPass r).run tokens).mapError (.under "rewrite") := by
  rcases passByPass_cases r tokens with ⟨out, ran, chained⟩ | ⟨stage, fault, -, ran, chained⟩
  · rw [Stage.run, ran, chained]
    rfl
  · rw [Stage.run, ran, chained]
    rfl

/-- A resolver in one stage, behind the reader of notation. -/
theorem read_atOnce (text : String) :
    (read text >>= atOnce.run) = (runText (passByPass .full) text).mapError (.under "rewrite") := by
  rw [runText]
  cases read : Chain.read text with
  | error e =>
      -- what cannot be read is blamed on no stage that resolves
      rw [Chain.read] at read
      cases notation_ : Notation.read text with
      | ok tokens =>
          rw [notation_] at read
          cases read
      | error unreadable =>
          rw [notation_] at read
          obtain rfl := Except.error.inj read
          rfl
  | ok tokens =>
      have one : atOnce.run tokens = (Stage.resolve .full).run tokens := by
        rw [atOnce, run, List.foldlM_cons]
        cases (Stage.resolve .full).run tokens <;> rfl
      exact one.trans (resolve_run_eq .full tokens)

/-- **All routes to a resolved stream agree.**  The stage of a resolver and its chain of single
passes, which checks balance just if all passes run and it is asked for, return one stream or
fail with one fault; the chain names the stage that fails.  So do the ways from notation, read
and resolved by a resolver, by a chain, or as a source. -/
theorem routes_agree (r : Resolver) (tokens : Tokens) (text : String) :
    passByPass r = r.passes.map .pass ++
        (if r.verifyBalance = true ∧ r.passes = Pass.order then [.balance] else []) ∧
      (Stage.resolve r).run tokens = ((passByPass r).run tokens).mapError (.under "rewrite") ∧
      (∀ e, (passByPass r).run tokens = .error e ↔
        ∃ stage fault, r.FailsAt tokens stage fault ∧ e = .failed stage fault) ∧
      (read text >>= (passByPass .full).run) = runText (passByPass .full) text ∧
      (read text >>= atOnce.run) =
        (runText (passByPass .full) text).mapError (.under "rewrite") ∧
      (Source.ofText text).resolved = (runText (passByPass .full) text).mapError .stage := by
  refine ⟨?_, resolve_run_eq r tokens, passByPass_eq_error_iff r tokens, rfl, read_atOnce text, ?_⟩
  · simp only [passByPass, r.verifies_iff]
  · rw [Source.resolved, Source.through, runText]
    cases read : Chain.read text with
    | error e =>
        simp only [Source.tokens, Source.ofText, read]
        rfl
    | ok tokens =>
        simp only [Source.tokens, Source.ofText, read]
        rfl

end Chain

/-! ## Edits -/

namespace Edit

/-- Passes as edits, one after the other, are a run of the passes. -/
theorem foldlM_passes (passes : List Pass) (tokens : Tokens) :
    (passes.map pass).foldlM apply tokens =
      (Resolver.runPasses passes tokens).mapError .fault := by
  induction passes generalizing tokens with
  | nil => rfl
  | cons p passes ih =>
      rw [List.map_cons, List.foldlM_cons, Resolver.runPasses, List.foldlM_cons]
      cases done : p.apply tokens with
      | error fault => simp [apply, done, Except.mapError, bind, Except.bind]
      | ok middle =>
          simp only [apply, done, Except.mapError, bind, Except.bind]
          exact ih middle

/-- **A resolver as one edit** does what its passes do as edits, and then checks the balance if it
is asked for and no pass is left out. -/
theorem apply_resolve (r : Resolver) (tokens : Tokens) : apply tokens (.resolve r) = (do
    let resolved ← (r.passes.map pass).foldlM apply tokens
    if r.verifyBalance = true ∧ r.passes = Pass.order then
      (ensureBalance resolved).mapError .fault
    return resolved) := by
  simp only [foldlM_passes, apply, Resolver.run, ← r.verifies_iff]
  cases Resolver.runPasses r.passes tokens with
  | error fault => rfl
  | ok resolved =>
      by_cases verifies : r.verifies = true
      · simp only [verifies, if_true, Except.mapError, bind, Except.bind]
        cases ensureBalance resolved <;> rfl
      · simp only [verifies, Except.mapError, bind, Except.bind]
        rfl

/-- A change to a token leaves all others where they are. -/
theorem getElem?_change {tokens out : Tokens} {index : Nat} {f : Token → Except EditError Token}
    (done : change tokens index f = .ok out) (other : Nat) :
    ∃ t changed, tokens[index]? = some t ∧ f t = .ok changed ∧
      out[other]? = if other = index then some changed else tokens[other]? := by
  cases here : tokens[index]? with
  | none => simp [change, tokenAt, here, bind, Except.bind] at done
  | some t =>
      cases made : f t with
      | error e => simp [change, tokenAt, here, made, bind, Except.bind] at done
      | ok changed =>
          simp only [change, tokenAt, here, made, bind, Except.bind, pure, Except.pure,
            Except.ok.injEq] at done
          obtain ⟨within, -⟩ := List.getElem?_eq_some_iff.1 here
          refine ⟨t, changed, rfl, made, ?_⟩
          rw [← done, List.getElem?_set]
          by_cases same : index = other
          · rw [if_pos same, if_pos same.symm, if_pos (same ▸ within)]
          · rw [if_neg same, if_neg (Ne.symm same)]

end Edit

end TokenLayout
