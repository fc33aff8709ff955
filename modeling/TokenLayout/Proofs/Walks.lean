/-
# TokenLayout.Proofs.Walks -- stretches of a walk

A walk over a whole stream is put together from stretches: `Walks visit n c c'`
says that from the cursor `c` the walk comes to `c'` in at most `n` visits, none
of which fails.  Stretches compose (`Walks.trans`), and their visits add up.

A stretch that ends at the end of the stream is the whole walk (`scan_of_walks`),
and one that ends at a token whose visit fails is how far the walk comes
(`scan_of_walks_error`), provided that the budget covers it.
-/
import TokenLayout.Cursor

namespace TokenLayout.Cursor

set_option autoImplicit false

variable {ε : Type} {visit : PlainVisit ε}

/-! ## Moves -/

theorem forward_over (before passed rest : Tokens) :
    forward before passed.length (passed ++ rest) = ⟨passed.reverse ++ before, rest⟩ := by
  induction passed generalizing before with
  | nil => cases rest <;> rfl
  | cons t passed ih =>
      rw [List.reverse_cons, List.append_assoc]
      exact ih (t :: before)

/-- As many places forward as there are tokens here. -/
theorem move_over (before passed rest : Tokens) :
    (⟨before, passed ++ rest⟩ : Cursor).move passed.length = ⟨passed.reverse ++ before, rest⟩ :=
  forward_over before passed rest

theorem move_one (before rest : Tokens) (t : Token) :
    (⟨before, t :: rest⟩ : Cursor).move 1 = ⟨t :: before, rest⟩ :=
  move_over before [t] rest

theorem move_two (before rest : Tokens) (t u : Token) :
    (⟨before, t :: u :: rest⟩ : Cursor).move 2 = ⟨u :: t :: before, rest⟩ :=
  move_over before [t, u] rest

/-! ## Stretches -/

/-- In at most so many visits, none of which fails, a walk comes from one cursor to
another. -/
inductive Walks (visit : PlainVisit ε) : Nat → Cursor → Cursor → Prop
  | here (n : Nat) (c : Cursor) : Walks visit n c c
  | step {n : Nat} {before after : Tokens} {t : Token} {c c' : Cursor} {places : Int}
      (visited : visit before t after = .ok (c, places))
      (onward : Walks visit n (c.move places) c') : Walks visit (n + 1) ⟨before, t :: after⟩ c'

namespace Walks

theorem mono {n m : Nat} {c c' : Cursor} (walks : Walks visit n c c') (more : n ≤ m) :
    Walks visit m c c' := by
  induction walks generalizing m with
  | here n c => exact .here m c
  | step visited onward ih =>
      obtain ⟨m, rfl⟩ : ∃ k, m = k + 1 := ⟨m - 1, by omega⟩
      exact .step visited (ih (by omega))

theorem trans {n m : Nat} {c c' c'' : Cursor} (first : Walks visit n c c')
    (second : Walks visit m c' c'') : Walks visit (n + m) c c'' := by
  induction first with
  | here n c => exact second.mono (by omega)
  | step visited onward ih =>
      rw [Nat.add_right_comm]
      exact .step visited (ih second)

/-- One visit that leaves everything as it is. -/
theorem keep {n : Nat} {before after : Tokens} {t : Token} {c' : Cursor}
    (kept : visit before t after = Cursor.keep before t after)
    (onward : Walks visit n ⟨t :: before, after⟩ c') :
    Walks visit (n + 1) ⟨before, t :: after⟩ c' :=
  .step kept (by rwa [move_one])

/-- What a walk does after a stretch does not depend on the stretch. -/
theorem walk_eq {n : Nat} {c c' : Cursor} (walks : Walks visit n c c') :
    ∃ used, used ≤ n ∧ ∀ budget,
      walk visit.stateful (used + budget) () c = walk visit.stateful budget () c' := by
  induction walks with
  | here n c => exact ⟨0, Nat.zero_le _, fun budget => by rw [Nat.zero_add]⟩
  | step visited onward ih =>
      obtain ⟨used, few, same⟩ := ih
      refine ⟨used + 1, by omega, ?_⟩
      intro budget
      rw [Nat.add_right_comm, ← same]
      simp only [walk, PlainVisit.stateful, visited]

end Walks

/-! ## Whole walks -/

variable {n budget : Nat} {tokens : Tokens}

theorem scan_of_walks {out : Tokens} (walks : Walks visit n (start tokens) ⟨out, []⟩)
    (enough : n ≤ budget) : scan visit budget tokens = .ok out.reverse := by
  obtain ⟨used, few, same⟩ := walks.walk_eq
  have split : used + (budget - used) = budget := by omega
  have whole := same (budget - used)
  rw [split] at whole
  simp only [scan, whole, walk]

theorem scan_of_walks_error {before after : Tokens} {t : Token} {e : ε}
    (walks : Walks visit n (start tokens) ⟨before, t :: after⟩)
    (failed : visit before t after = .error e) (enough : n < budget) :
    scan visit budget tokens = .error e := by
  obtain ⟨used, few, same⟩ := walks.walk_eq
  have split : used + (budget - used - 1 + 1) = budget := by omega
  have whole := same (budget - used - 1 + 1)
  rw [split] at whole
  simp only [scan, whole, walk, PlainVisit.stateful, failed]

end TokenLayout.Cursor
