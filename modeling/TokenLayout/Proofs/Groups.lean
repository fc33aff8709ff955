/-
# TokenLayout.Proofs.Groups -- the `(` of a closer, found backwards and forwards

Whether a closer closes a group is found by counting back from it (`closesGroup`): closers
make the count deeper, openers take it back, and the opener that is met at depth zero
decides.  Matching forwards keeps the openers still open on a stack instead, and each closer
takes the last one off it (`Matching`).  On a stream that is not balanced the two part at a
closer with nothing open: matching passes over it, and counting back does not forget it.

They still agree.  Counting back at some depth finds the opener at that depth on the stack
(`closesGroup_reverse`), since a closer that takes an opener off the stack moves the others up
by one, and a closer that finds the stack empty leaves nothing for any count to find.  What
matching has paired when it comes to an index is told by the same stack (`Matched`), which
`Matched.step` carries over one token and `Matched.run` over the rest of the stream.

Main statement: `closesGroup_iff_paired`.
-/
import TokenLayout.Proofs.Closers
import Mathlib.Data.List.Forall2
import Mathlib.Data.List.Induction

namespace TokenLayout

set_option autoImplicit false

open List (Forall₂)

/-! ## Matching forwards -/

/-- A matching under way: the indexes of the openers still open, innermost first, and the pairs
made, each of the index of an opener and that of a closer. -/
structure Matching where
  opened : List Nat
  pairs : List (Nat × Nat)
  deriving DecidableEq

namespace Matching

/-- Match one more token, at this index.  An opener of any kind is pushed, a closer pops the last
one, and a closer is passed over when nothing is open. -/
def step (m : Matching) (index : Nat) (t : Token) : Matching :=
  if t.tag.isOpener then ⟨index :: m.opened, m.pairs⟩
  else if t.tag.isCloser then
    match m.opened with
    | opener :: outer => ⟨outer, (opener, index) :: m.pairs⟩
    | [] => m
  else m

/-- Match the rest of a stream, whose first token is at this index. -/
def run (m : Matching) (index : Nat) : Tokens → Matching
  | [] => m
  | t :: rest => (m.step index t).run (index + 1) rest

/-- Match a stream from its start. -/
def forward (tokens : Tokens) : Matching :=
  run ⟨[], []⟩ 0 tokens

end Matching

/-! ## What is open at an index -/

section

variable {tokens : Tokens} {index : Nat} {t : Token}

theorem pending_take_succ (here : tokens[index]? = some t) :
    pending (tokens.take (index + 1)) = pend (pending (tokens.take index)) t := by
  rw [List.take_add_one, here, Option.toList_some, pending_concat]

/-- What a matching that has come to an index knows: which openers are still open there, and which
closer before it has been paired with what was open last before that closer. -/
structure Matched (tokens : Tokens) (index : Nat) (m : Matching) : Prop where
  opened : Forall₂ (fun i o => tokens[i]? = some o) m.opened (pending (tokens.take index))
  behind : ∀ j i, (j, i) ∈ m.pairs → i < index
  paired : ∀ i c, i < index → tokens[i]? = some c → c.tag.isCloser = true → ∀ o,
    (∃ j, (j, i) ∈ m.pairs ∧ tokens[j]? = some o) ↔ (pending (tokens.take i)).head? = some o

namespace Matched

variable {m : Matching}

theorem start (tokens : Tokens) : Matched tokens 0 ⟨[], []⟩ where
  opened := .nil
  behind := by simp
  paired := by simp

/-- One token on, if the pairs added are all of that token, and are the right ones where it
closes. -/
theorem extend (matched : Matched tokens index m) (here : tokens[index]? = some t)
    {opened : List Nat} {added : List (Nat × Nat)}
    (keeps : Forall₂ (fun i o => tokens[i]? = some o) opened (pend (pending (tokens.take index)) t))
    (own : ∀ j i, (j, i) ∈ added → i = index)
    (right : t.tag.isCloser = true → ∀ o, (∃ j, (j, index) ∈ added ∧ tokens[j]? = some o) ↔
      (pending (tokens.take index)).head? = some o) :
    Matched tokens (index + 1) ⟨opened, added ++ m.pairs⟩ where
  opened := by
    rw [pending_take_succ here]
    exact keeps
  behind := by
    intro j i member
    rcases List.mem_append.1 member with new | old
    · have at_ := own j i new
      omega
    · have earlier := matched.behind j i old
      omega
  paired := by
    intro i c upTo there closes o
    rcases Nat.lt_or_eq_of_le (Nat.le_of_lt_succ upTo) with earlier | rfl
    · -- no pair added is of an index before this one
      have none : ∀ j, (j, i) ∉ added := by
        intro j new
        have at_ := own j i new
        omega
      simp only [List.mem_append, none, false_or]
      exact matched.paired i c earlier there closes o
    · -- and no pair made before is of this one
      obtain rfl : t = c := by simpa [here] using there
      have none : ∀ j, (j, i) ∉ m.pairs := by
        intro j old
        have earlier := matched.behind j i old
        omega
      simp only [List.mem_append, none, or_false]
      exact right closes o

/-- **What a matching knows it still knows one token on.** -/
theorem step (matched : Matched tokens index m) (here : tokens[index]? = some t) :
    Matched tokens (index + 1) (m.step index t) := by
  have opened := matched.opened
  rcases t.opens_or_closes_or_alone with opens | closes | alone
  · have notCloser := Tag.isCloser_of_isOpener opens
    have stepped : m.step index t = ⟨index :: m.opened, [] ++ m.pairs⟩ := by
      simp [Matching.step, opens]
    rw [stepped]
    refine matched.extend here ?_ (by simp) (by simp [notCloser])
    rw [pend_opener opens]
    exact .cons here opened
  · have notOpener := Tag.isOpener_of_isCloser closes
    obtain ⟨- | ⟨opener, outer⟩, pairs⟩ := m
    · -- nothing is open
      have stepped : Matching.step ⟨[], pairs⟩ index t = ⟨[], [] ++ pairs⟩ := by
        simp [Matching.step, notOpener]
      have empty : pending (tokens.take index) = [] := List.forall₂_nil_left_iff.1 opened
      rw [stepped]
      refine matched.extend here ?_ (by simp) (by simp [empty])
      rw [pend_closer closes, empty]
      exact .nil
    · have stepped : Matching.step ⟨opener :: outer, pairs⟩ index t =
          ⟨outer, [(opener, index)] ++ pairs⟩ := by
        simp [Matching.step, notOpener, closes]
      obtain ⟨o, open_, there, further, last⟩ := List.forall₂_cons_left_iff.1 opened
      rw [stepped]
      refine matched.extend here ?_ (by simp) fun _ => ?_
      · rw [pend_closer closes, last]
        exact further
      · simp [last, there]
  · have stepped : m.step index t = ⟨m.opened, [] ++ m.pairs⟩ := by
      simp [Matching.step, alone.1, alone.2]
    rw [stepped]
    refine matched.extend here ?_ (by simp) (by simp [alone.2])
    rw [pend_alone alone]
    exact opened

theorem run {rest : Tokens} (matched : Matched tokens index m)
    (ahead : tokens.drop index = rest) :
    Matched tokens (index + rest.length) (m.run index rest) := by
  induction rest generalizing index m with
  | nil => exact matched
  | cons t rest ih =>
      obtain ⟨here, behind⟩ := getElem?_of_drop ahead
      have onward := ih (matched.step here) behind
      rw [List.length_cons, ← Nat.succ_add_eq_add_succ]
      exact onward

end Matched

theorem matched_forward (tokens : Tokens) :
    Matched tokens tokens.length (Matching.forward tokens) := by
  have whole := (Matched.start tokens).run rfl
  rw [Nat.zero_add] at whole
  exact whole

end

/-! ## Counting back -/

namespace Closers

/-- **Counting back finds the opener at that depth of the stack.** -/
theorem closesGroup_reverse (depth : Nat) (front : Tokens) :
    closesGroup depth front.reverse =
      ((pending front)[depth]?).any fun o => o.tag == .parenStart := by
  induction front using List.reverseRecOn generalizing depth with
  | nil => simp [closesGroup, pending]
  | append_singleton front t ih =>
      rw [List.reverse_concat, pending_concat]
      rcases t.opens_or_closes_or_alone with opens | closes | alone
      · rw [pend_opener opens]
        cases depth with
        | zero => simp [closesGroup_zero_opener opens]
        | succ depth => rw [closesGroup_cons_opener opens, ih, List.getElem?_cons_succ]
      · -- an empty stack has an empty tail, so no depth tells a stray closer from none
        rw [pend_closer closes, closesGroup_cons_closer closes, ih, List.getElem?_tail]
      · rw [pend_alone alone, closesGroup_cons_alone alone, ih]

/-- **Counting back agrees with matching forwards.**  Counting back from a closer finds a `(` just
if matching the stream from its start pairs that closer with a `(`, whether the stream is balanced
or not.  So an `OUTDENT` right behind a closer stops a call just if that closer is a `)` that is
paired with no `(`. -/
theorem closesGroup_iff_paired (tokens : Tokens) (i : Nat) (c : Token)
    (here : tokens[i]? = some c) (closes : c.tag.isCloser = true) :
    (closesGroup 0 (tokens.take i).reverse = true ↔
      ∃ j o, (j, i) ∈ (Matching.forward tokens).pairs ∧ tokens[j]? = some o ∧
        o.tag = .parenStart) ∧
    ∀ t, tokens[i + 1]? = some t → t.tag = .outdent →
      (endsCall (tokens.take (i + 1)).reverse t (tokens.drop (i + 2)) = true ↔
        c.tag = .parenEnd ∧ ∀ j o, (j, i) ∈ (Matching.forward tokens).pairs →
          tokens[j]? = some o → o.tag ≠ .parenStart) := by
  have inside : i < tokens.length := (List.getElem?_eq_some_iff.1 here).1
  have paired := (matched_forward tokens).paired i c inside here closes
  have agree : closesGroup 0 (tokens.take i).reverse = true ↔
      ∃ j o, (j, i) ∈ (Matching.forward tokens).pairs ∧ tokens[j]? = some o ∧
        o.tag = .parenStart := by
    rw [closesGroup_reverse, ← List.head?_eq_getElem?, Option.any_eq_true]
    constructor
    · rintro ⟨o, last, paren⟩
      obtain ⟨j, made, there⟩ := (paired o).2 last
      exact ⟨j, o, made, there, by simpa using paren⟩
    · rintro ⟨j, o, made, there, paren⟩
      exact ⟨o, (paired o).1 ⟨j, made, there⟩, by simpa using paren⟩
  refine ⟨agree, ?_⟩
  intro t behind outdent
  have before : (tokens.take (i + 1)).reverse = c :: (tokens.take i).reverse := by
    rw [List.take_add_one, here, Option.toList_some, List.reverse_concat]
  rw [before]
  simp only [endsCall, outdent, Bool.and_eq_true, beq_iff_eq, Bool.not_eq_true']
  rw [← Bool.not_eq_true, agree]
  simp only [not_exists, not_and]

/-- A closer that nothing opens, a block that is left open, and a group with a list in it that the
closer of a mapping ends. -/
def crossedGroup : Tokens :=
  [.bare .parenEnd, .bare .indent, .bare .parenStart, .bare .bracketStart, .bare .mappingEnd,
    .bare .parenEnd, .bare .outdent]

theorem closesGroup_iff_paired_crossedGroup :
    crossedGroup[5]? = some (.bare .parenEnd) ∧ Tag.parenEnd.isCloser = true ∧
      (∃ j o, (j, 5) ∈ (Matching.forward crossedGroup).pairs ∧ crossedGroup[j]? = some o ∧
        o.tag = .parenStart) ∧
      crossedGroup[6]? = some (.bare .outdent) ∧
        endsCall (crossedGroup.take 6).reverse (.bare .outdent) (crossedGroup.drop 7) = false := by
  obtain ⟨agree, stops⟩ := closesGroup_iff_paired crossedGroup 5 (.bare .parenEnd) rfl rfl
  have paired := agree.1 (by decide)
  refine ⟨rfl, rfl, paired, rfl, ?_⟩
  rw [← Bool.not_eq_true, stops (.bare .outdent) rfl rfl]
  rintro ⟨-, noGroup⟩
  obtain ⟨j, o, made, there, paren⟩ := paired
  exact noGroup j o made there paren

end Closers

end TokenLayout
