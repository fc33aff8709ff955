/-
# TokenLayout.Proofs.Indexes -- every index is closed

The stop of an index is one of its own closers, so closing indexes never takes the
detour that a call takes before a dedent: every index meets an `INDEX_END`, and a
second run has nothing to do.

Of what it adds, closing says where it comes from.  A stream `Completes` to another
one when nothing changes but closers of the construct that are retagged and closers
that are inserted, each generated by the opener pending there.  Closing inserts from
the last opener to the first, and whatever it puts in front of closed constructs, an
inserted closer keeps its opener: the openers between the two are closed already, so
one more opener in front lies deeper in the stack (`Completes.behind`).

Nor is an index that stays open ever at fault: the constructs behind an opener are
closed before it is, and the opener at fault is one that nothing behind it closes
(`openIn_of_close_error`).  Main statement: `close_index_shut`.
-/
import Mathlib.Data.List.Infix
import TokenLayout.Proofs.Shut

namespace TokenLayout.Closers

set_option autoImplicit false

variable {construct : Construct}

/-! ## What is added -/

/-- A stream and what it completes to, behind these pending openers, innermost first: tokens are
kept, closers of the construct retagged, and closers inserted that the opener pending last
generates. -/
inductive Completes (construct : Construct) : (opened tokens out : Tokens) → Prop
  | nil {opened : Tokens} : Completes construct opened [] []
  | keep {opened rest later : Tokens} (t : Token)
      (behind : Completes construct (pend opened t) rest later) :
      Completes construct opened (t :: rest) (t :: later)
  | retag {opened rest later : Tokens} (t : Token) (own : t.tag ∈ construct.own)
      (behind : Completes construct (pend opened (t.retag construct.closer)) rest later) :
      Completes construct opened (t :: rest) (t.retag construct.closer :: later)
  | insert {opened rest later : Tokens} (opener : Token) (last : opened.head? = some opener)
      (opens : opener.tag = construct.opener)
      (behind : Completes construct (pend opened (Token.generated construct.closer opener))
        rest later) :
      Completes construct opened rest (Token.generated construct.closer opener :: later)

/-- More openers further out change nothing about the openers further in. -/
theorem pend_deepen {opened opened' : Tokens} (deeper : opened <+: opened') (t : Token) :
    pend opened t <+: pend opened' t := by
  obtain ⟨outer, rfl⟩ := deeper
  unfold pend
  split
  · exact ⟨outer, rfl⟩
  · split
    · cases opened with
      | nil => exact List.nil_prefix
      | cons o opened => exact ⟨outer, rfl⟩
    · exact ⟨outer, rfl⟩

namespace Completes

/-- Change a stream behind some of its tokens, and put openers further out. -/
theorem behind {opened tokens front back : Tokens}
    (completes : Completes construct opened tokens (front ++ back)) {opened' back' : Tokens}
    (deeper : opened <+: opened')
    (change : ∀ rest, Completes construct (front.foldl pend opened) rest back →
      Completes construct (front.foldl pend opened') rest back') :
    Completes construct opened' tokens (front ++ back') := by
  induction front generalizing opened opened' tokens with
  | nil => exact change tokens completes
  | cons u front ih =>
      cases completes with
      | keep _ behind => exact .keep u (ih behind (pend_deepen deeper _) change)
      | retag t own behind => exact .retag t own (ih behind (pend_deepen deeper _) change)
      | insert opener last opens behind =>
          obtain ⟨outer, rfl⟩ := deeper
          have last' : (opened ++ outer).head? = some opener := by
            rw [List.head?_append, last, Option.some_or]
          exact .insert opener last' opens (ih behind (pend_deepen ⟨outer, rfl⟩ _) change)

theorem deepen {opened opened' tokens out : Tokens} (deeper : opened <+: opened')
    (completes : Completes construct opened tokens out) :
    Completes construct opened' tokens out := by
  rw [← List.append_nil out] at completes ⊢
  refine completes.behind deeper fun rest nothing => ?_
  cases nothing
  exact .nil

/-- Retag the first closer, one of the construct's own, and put openers further out. -/
theorem retag_head (stops : construct.Stops) {opened opened' rest back : Tokens} {c : Token}
    (own : c.tag ∈ construct.own) (deeper : opened <+: opened')
    (completes : Completes construct opened rest (c :: back)) :
    Completes construct opened' rest (c.retag construct.closer :: back) := by
  have closes := stops.isCloser_of_mem own
  have tail : pend opened c <+: pend opened' (c.retag construct.closer) := by
    have pops := pend_deepen deeper c
    rwa [pend_closer closes opened', ← pend_closer (t := c.retag construct.closer) stops.isCloser]
      at pops
  cases completes with
  | keep _ behind => exact .retag c own (behind.deepen tail)
  | retag t own' behind => exact .retag t own' (behind.deepen tail)
  | insert opener last opens behind =>
      obtain ⟨outer, rfl⟩ := deeper
      have last' : (opened ++ outer).head? = some opener := by
        rw [List.head?_append, last, Option.some_or]
      exact .insert opener last' opens (behind.deepen tail)

/-- Completing a stream takes no stray away. -/
theorem length_strays_le (stops : construct.Stops) {opened tokens out : Tokens}
    (completes : Completes construct opened tokens out) :
    (strays tokens).length ≤ (strays out).length := by
  induction completes with
  | nil => exact Nat.le_refl _
  | keep t _ ih => exact length_strays_cons_le ih t
  | retag t own _ ih =>
      have closes : (t.retag construct.closer).tag.isCloser = true := stops.isCloser
      rw [strays_closer (stops.isCloser_of_mem own), strays_closer closes]
      exact Nat.succ_le_succ ih
  | insert opener _ _ _ ih =>
      have closes : (Token.generated construct.closer opener).tag.isCloser = true := stops.isCloser
      rw [strays_closer closes]
      exact Nat.le_succ_of_le ih

/-- An opener that stays open is one of the stream as it was, and stayed open there. -/
theorem openIn (stops : construct.Stops) {opened tokens out : Tokens}
    (completes : Completes construct opened tokens out) {o : Token} (open_ : OpenIn out o) :
    OpenIn tokens o := by
  obtain ⟨front, rest, split, opens, stays⟩ := open_
  have notCloser : ∀ t : Token, t.tag = construct.closer → t ≠ o := by
    rintro t tag rfl
    rw [tag, Tag.isOpener_of_isCloser stops.isCloser] at opens
    cases opens
  induction completes generalizing front with
  | nil => cases front <;> cases split
  | @keep opened later out t behind ih =>
      cases front with
      | nil =>
          obtain ⟨rfl, rfl⟩ := List.cons.inj split
          have fewer := behind.length_strays_le stops
          rw [stays] at fewer
          exact ⟨[], later, rfl, opens, List.eq_nil_of_length_eq_zero (Nat.le_zero.1 fewer)⟩
      | cons u front => exact (ih front (List.cons.inj split).2).behind [t]
  | retag t own behind ih =>
      cases front with
      | nil => exact absurd (List.cons.inj split).1 (notCloser _ rfl)
      | cons u front => exact (ih front (List.cons.inj split).2).behind [t]
  | insert opener last tag behind ih =>
      cases front with
      | nil => exact absurd (List.cons.inj split).1 (notCloser _ rfl)
      | cons u front => exact ih front (List.cons.inj split).2

end Completes

/-- Closing one construct completes what is behind its opener, which is then pending. -/
theorem Closing.completes (stops : construct.Stops) {opener : Token}
    (opens : opener.tag = construct.opener) {tokens later closed : Tokens}
    (closing : Closing construct opener later closed)
    (completes : Completes construct [] tokens later) :
    Completes construct [opener] tokens closed := by
  cases closing with
  | @own inside c rest level tag =>
      refine completes.behind List.nil_prefix fun input behind => ?_
      rw [foldl_pend_flatten level] at behind ⊢
      exact behind.retag_head stops tag List.nil_prefix
  | @dedent front within o p c rest isCall outer inner starts group tag outdent =>
      have whole : ∀ q : Token, front.flatten ++ o :: (within.flatten ++ q :: c :: rest) =
          (front.flatten ++ o :: within.flatten) ++ q :: c :: rest := by simp
      have pended : ∀ opened, (front.flatten ++ o :: within.flatten).foldl pend opened =
          o :: opened := by
        intro opened
        rw [List.foldl_append, List.foldl_cons, foldl_pend_flatten outer, pend_opener starts,
          foldl_pend_flatten inner]
      rw [whole] at completes ⊢
      refine completes.behind List.nil_prefix fun input behind => ?_
      rw [pended] at behind ⊢
      have own : p.tag ∈ construct.own := by simp [tag]
      exact behind.retag_head stops own ⟨[opener], rfl⟩
  | @generated inside next level ends =>
      refine completes.behind List.nil_prefix fun input behind => ?_
      rw [foldl_pend_flatten level] at behind ⊢
      refine .insert opener rfl opens ?_
      rwa [pend_closer stops.isCloser]

/-- **Closing completes a stream.** -/
theorem ClosesTo.completes (stops : construct.Stops) {tokens out : Tokens}
    (closes : ClosesTo construct tokens out) : Completes construct [] tokens out := by
  induction closes with
  | nil => exact .nil
  | @other t rest later other _ ih => exact .keep t (ih.deepen List.nil_prefix)
  | @opener t rest later closed opens _ closing ih =>
      refine .keep t ?_
      rw [pend_opener (by rw [opens]; exact stops.regular.opens)]
      exact closing.completes stops opens ih

/-- What stays open where constructs have been closed stayed open before, and is none of them. -/
theorem openIn_of_closeOnto (stops : construct.Stops) {before tokens out : Tokens}
    (done : closeOnto construct before tokens [] = .ok out) {o : Token} (open_ : OpenIn out o) :
    OpenIn tokens o ∧ o.tag ≠ construct.opener := by
  have closes := closesTo_of_closeOnto stops done
  exact ⟨(closes.completes stops).openIn stops open_,
    (shut_of_closesTo stops closes).not_openIn open_⟩

/-! ## What cannot be closed -/

/-- Closing fails at the first construct, from the end of the stream, in which an opener stays
open. -/
theorem exists_of_closeOnto_error {before tokens : Tokens} {fault : Fault}
    (failed : closeOnto construct before tokens [] = .error fault) :
    ∃ front opener rest later before', tokens = front ++ opener :: rest ∧
      opener.tag = construct.opener ∧ closeOnto construct (opener :: before') rest [] = .ok later ∧
      closeOne construct before' opener later = .error fault := by
  induction tokens generalizing before with
  | nil => cases failed
  | cons t rest ih =>
      simp only [closeOnto] at failed
      cases behind : closeOnto construct (t :: before) rest [] with
      | error fault' =>
          rw [behind] at failed
          obtain rfl := Except.error.inj failed
          obtain ⟨front, opener, rest', later, before', rfl, found⟩ := ih behind
          exact ⟨t :: front, opener, rest', later, before', rfl, found⟩
      | ok later =>
          simp only [behind] at failed
          split at failed
          · rename_i opens
            refine ⟨[], t, rest, later, before, rfl, opens, behind, ?_⟩
            cases one : closeOne construct before t later with
            | error fault' =>
                rw [one] at failed
                exact congrArg Except.error (Except.error.inj failed)
            | ok closed =>
                rw [one] at failed
                cases failed
          · cases failed

/-- The opener at fault stays open in the stream, and is of no construct that is being closed. -/
theorem openIn_of_close_error (stops : construct.Stops) {tokens : Tokens} {fault : Fault}
    (failed : close construct tokens = .error fault) :
    ∃ opener, OpenIn tokens opener ∧ opener.tag ≠ construct.opener ∧
      fault = .ofUnclosed opener := by
  obtain ⟨front, opener, rest, later, before, rfl, opens, behind, one⟩ :=
    exists_of_closeOnto_error failed
  cases reach later with
  | closer inside c after meets =>
      have some_ : strays later ≠ [] := by
        rw [meets.strays]
        exact List.cons_ne_nil _ _
      obtain ⟨closed, done⟩ := exists_closeOne stops some_ before opener
      rw [done] at one
      cases one
  | level forest level flat =>
      have yields : construct.Yields (forest.flatten.reverse ++ opener :: before) [] := trivial
      rw [← List.append_nil forest.flatten] at flat
      rw [flat, closeOne_of_yields stops.regular.atClosers level yields] at one
      cases one
  | opener forest o after level starts split stays =>
      have open_ : OpenIn later o := ⟨forest.flatten, after, split, starts, stays⟩
      rw [split, closeOne_of_open stops.regular.atClosers level starts stays] at one
      -- the constructs behind the opener are closed, so one of them does not stay open
      obtain ⟨inside, other⟩ := openIn_of_closeOnto stops behind open_
      have whole := inside.behind (front ++ [opener])
      exact ⟨o, by simpa using whole, other, (Except.error.inj one).symm⟩

/-- The opener at fault is one of the stream. -/
theorem exists_of_close_error (stops : construct.Stops) {tokens : Tokens} {fault : Fault}
    (failed : close construct tokens = .error fault) :
    ∃ opener ∈ tokens, opener.tag.isOpener = true ∧ opener.tag ≠ construct.opener ∧
      fault = .ofUnclosed opener := by
  obtain ⟨opener, ⟨front, rest, split, opens, -⟩, other, blamed⟩ :=
    openIn_of_close_error stops failed
  exact ⟨opener, by simp [split], opens, other, blamed⟩

/-! ## Indexes -/

/-- **Closing indexes closes every index**, or fails for an opener of another kind.  What an index
meets first at depth zero is an `INDEX_END`, and no two indexes meet the same one; each that is
inserted is generated by the index it closes; and closing them again changes nothing. -/
theorem close_index_shut (tokens : Tokens) :
    (∀ out, close index tokens = .ok out →
      (∀ front opener after, out = front ++ opener :: after → opener.tag = .indexStart →
        ∃ inside closer rest, Meets after inside closer rest ∧ closer.tag = .indexEnd) ∧
      (∀ front front' inside inside' closer closer' rest,
        Span index out front inside closer rest → Span index out front' inside' closer' rest →
          front = front') ∧
      Completes index [] tokens out ∧ close index out = .ok out) ∧
    ∀ fault, close index tokens = .error fault →
      ∃ opener ∈ tokens, opener.tag.isOpener = true ∧ opener.tag ≠ .indexStart ∧
        fault = .ofUnclosed opener := by
  refine ⟨fun out done => ?_, fun fault failed => exists_of_close_error index_stops failed⟩
  have closes := closesTo_of_closeOnto index_stops done
  have shut : Shut index (fun _ closer => closer.tag = .indexEnd) out := by
    refine shut_iff.2 fun front opener after split opens => ?_
    obtain ⟨inside, closer, rest, meets, own | ⟨isCall, -⟩⟩ :=
      shut_iff.1 (shut_of_closesTo index_stops closes) front opener after split opens
    · exact ⟨inside, closer, rest, meets, own⟩
    · cases isCall
  exact ⟨shut_iff.1 shut, fun _ _ _ _ _ _ _ span span' => span.front_eq index_stops span',
    closes.completes index_stops, (closeOnto_eq_self_iff index_stops).2 shut⟩

/-- An index around a group that a dedent closes, with two indexes in it. -/
def crossedIndexes : Tokens :=
  [.onFirstLine .indexStart 0, .onFirstLine .parenStart 1, .onFirstLine .indexStart 2,
   .onFirstLineAs .number "0" 3, .onFirstLine .bracketEnd 4, .onFirstLine .indexStart 5,
   .onFirstLineAs .number "1" 6, .onFirstLine .outdent 7]

/-- The first of two indexes has a group in it that nothing closes. -/
def openIndexes : Tokens :=
  [.onFirstLine .indexStart 0, .onFirstLine .parenStart 1, .onFirstLine .indexStart 2,
   .onFirstLineAs .number "0" 3]

theorem close_index_shut_crossedIndexes :
    (∃ out, close index crossedIndexes = .ok out ∧
      out.map Token.tag = [.indexStart, .parenStart, .indexStart, .number, .indexEnd, .indexStart,
        .number, .indexEnd, .outdent, .indexEnd] ∧
      Completes index [] crossedIndexes out ∧ close index out = .ok out) ∧
    ∃ opener ∈ openIndexes, opener.tag.isOpener = true ∧ opener.tag ≠ .indexStart ∧
      close index openIndexes = .error (.ofUnclosed opener) := by
  have done : ∃ out, close index crossedIndexes = .ok out ∧
      out.map Token.tag = [.indexStart, .parenStart, .indexStart, .number, .indexEnd, .indexStart,
        .number, .indexEnd, .outdent, .indexEnd] := ⟨_, rfl, rfl⟩
  have failed : close index openIndexes =
      .error (.ofUnclosed (.onFirstLine .parenStart 1)) := rfl
  obtain ⟨out, closed, tags⟩ := done
  obtain ⟨-, -, completes, again⟩ := (close_index_shut crossedIndexes).1 out closed
  obtain ⟨opener, member, opens, other, blamed⟩ := (close_index_shut openIndexes).2 _ failed
  exact ⟨⟨out, closed, tags, completes, again⟩, opener, member, opens, other, blamed ▸ failed⟩

end TokenLayout.Closers
