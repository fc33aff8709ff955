/-
# TokenLayout.Proofs.Unfinished -- calls and indexes left open together

The closers of calls and indexes may all be missing where a block or the stream
ends: a run of `CALL_END`s and `INDEX_END`s before an `OUTDENT` or the end is left
out (`shed`), and both closing passes have to put back what is theirs.

The call pass runs while the closers of indexes are still missing, and depth does
not tell the two kinds apart.  A missing `INDEX_END` inside a call makes the call
reach over the next closer beyond it, and its own `CALL_END` comes out behind that
one.  Main statement `close_shed_iff`: the two passes give the stream back just if no
`INDEX_END` is missing inside a call.

That it suffices is closing undoing erasing (`permittedFrom_shed`).  That it is needed
takes three steps.  A stream that comes back has only had closers added to it
(`ClosesTo.adds_or_countP_lt`).  So the stream between the passes is known, tag by tag: it lacks
what it should lack (`map_tag_called`).  And there a call that holds a missing
`INDEX_END` meets no `CALL_END` (`outside_of_shut`).
-/
import TokenLayout.Proofs.Erasure
import TokenLayout.Proofs.Shut

namespace TokenLayout

set_option autoImplicit false

open Closers

/-! ## Leaving closers out -/

/-- The dedicated closer of a call or an index. -/
def Tag.isDedicated (t : Tag) : Bool :=
  t == .callEnd || t == .indexEnd

/-- After dedicated closers an `OUTDENT` follows, or nothing does. -/
def openEnded (rest : Tokens) : Bool :=
  (rest.dropWhile (·.tag.isDedicated)).head?.all (·.tag == .outdent)

/-- Leave out every run of dedicated closers before an `OUTDENT` or the end. -/
def shed : Tokens → Erasure
  | [] => []
  | t :: rest => (t, if t.tag.isDedicated && openEnded rest then .drop else .keep) :: shed rest

namespace Erasure

theorem source_shed (tokens : Tokens) : (shed tokens).source = tokens := by
  induction tokens with
  | nil => rfl
  | cons t rest ih => exact congrArg (t :: ·) ih

theorem openEnded_cons {t : Token} (dedicated : t.tag.isDedicated = true) (rest : Tokens) :
    openEnded (t :: rest) = openEnded rest := by
  simp [openEnded, dedicated]

theorem erased_shed_drop {t : Token} {rest : Tokens} (dedicated : t.tag.isDedicated = true)
    (ends : openEnded rest = true) : erased (shed (t :: rest)) = erased (shed rest) := by
  rw [shed, dedicated, ends]
  rfl

theorem erased_shed_keep {t : Token} {rest : Tokens}
    (kept : (t.tag.isDedicated && openEnded rest) = false) :
    erased (shed (t :: rest)) = t :: erased (shed rest) := by
  rw [shed, kept]
  rfl

/-- Where a run was left out, the `OUTDENT` is next. -/
theorem outdent_of_openEnded {rest : Tokens} (ends : openEnded rest = true) :
    ∀ t ∈ (erased (shed rest)).head?, t.tag = .outdent := by
  induction rest with
  | nil =>
      intro t first
      cases first
  | cons t rest ih =>
      by_cases dedicated : t.tag.isDedicated = true
      · rw [openEnded_cons dedicated] at ends
        rw [erased_shed_drop dedicated ends]
        exact ih ends
      · have other : t.tag.isDedicated = false := by simpa using dedicated
        rw [erased_shed_keep (by simp [other])]
        rintro u first
        obtain rfl : t = u := by simpa using first
        simpa [openEnded, other] using ends

/-- Other tokens stay. -/
theorem countP_erased_shed {tag : Tag} (other : tag.isDedicated = false) (tokens : Tokens) :
    (erased (shed tokens)).countP (·.tag = tag) = tokens.countP (·.tag = tag) := by
  induction tokens with
  | nil => rfl
  | cons t rest ih =>
      by_cases dropped : (t.tag.isDedicated && openEnded rest) = true
      · simp only [Bool.and_eq_true] at dropped
        have not : t.tag ≠ tag := by
          rintro rfl
          rw [other] at dropped
          cases dropped.1
        rw [erased_shed_drop dropped.1 dropped.2, ih, List.countP_cons_of_neg (by simpa using not)]
      · rw [erased_shed_keep (by simpa using dropped), List.countP_cons, List.countP_cons, ih]

/-! ## Nothing missing inside a call -/

/-- No `INDEX_END` is dropped while a call is pending. -/
def Outside (opened : Tokens) : Erasure → Prop
  | [] => True
  | a :: later =>
      (a.2 = .drop → a.1.tag = .indexEnd → ∀ o ∈ opened, o.tag ≠ .callStart) ∧
        Outside (pend opened a.1) later

instance decidableOutside (opened : Tokens) :
    (erasure : Erasure) → Decidable (Outside opened erasure)
  | [] => .isTrue trivial
  | a :: later =>
      have := decidableOutside (pend opened a.1) later
      inferInstanceAs (Decidable (_ ∧ _))

theorem outside_append {opened : Tokens} {left right : Erasure} :
    Outside opened (left ++ right) ↔
      Outside opened left ∧ Outside ((source left).foldl pend opened) right := by
  induction left generalizing opened with
  | nil => simp [Outside, source]
  | cons a left ih => simp [Outside, source, ih, and_assoc]

/-- The `INDEX_END`s left out stand outside of calls. -/
theorem outside_shed_iff {opened tokens : Tokens} :
    Outside opened (shed tokens) ↔
      ∀ front t back, tokens = front ++ t :: back → t.tag = .indexEnd → openEnded back = true →
        ∀ o ∈ front.foldl pend opened, o.tag ≠ .callStart := by
  induction tokens generalizing opened with
  | nil => simp [shed, Outside]
  | cons t rest ih =>
      simp only [shed, Outside, ih]
      constructor
      · rintro ⟨first, later⟩ front u back split tag ends
        cases front with
        | nil =>
            obtain ⟨rfl, rfl⟩ := List.cons.inj split
            exact first (by simp [Tag.isDedicated, tag, ends]) tag
        | cons w front =>
            obtain ⟨rfl, behind⟩ := List.cons.inj split
            exact later front u back behind tag ends
      · intro all
        refine ⟨?_, fun front u back split => all (t :: front) u back (by rw [split]; rfl)⟩
        intro dropped tag
        have ends : openEnded rest = true := by
          cases ends : openEnded rest with
          | true => rfl
          | false => simp [ends] at dropped
        exact all [] t rest rfl tag ends

/-- What is left out may be dropped, where nothing is missing inside a call. -/
theorem permittedFrom_shed {opened tokens : Tokens} (outside : Outside opened (shed tokens)) :
    permittedFrom opened (shed tokens) = true := by
  induction tokens generalizing opened with
  | nil => rfl
  | cons t rest ih =>
      obtain ⟨first, later⟩ := outside
      simp only [shed, permittedFrom, ih later, Bool.and_true]
      by_cases dropped : (t.tag.isDedicated && openEnded rest) = true
      · rw [if_pos dropped] at first ⊢
        simp only [Bool.and_eq_true] at dropped
        have next := outdent_of_openEnded dropped.2
        have which : t.tag = .callEnd ∨ t.tag = .indexEnd := by
          simpa [Tag.isDedicated] using dropped.1
        rcases which with tag | tag
        · simp only [allowed, tag, Option.all_eq_true]
          intro n head
          rw [next n head]
          rfl
        · have noCall : (opened.any fun o => o.tag == .callStart) = false := by
            simpa using first rfl tag
          simp only [allowed, tag, noCall, Bool.not_false, Bool.and_true, Option.all_eq_true]
          intro n head
          rw [next n head]
          rfl
      · rw [if_neg dropped]
        rfl

/-! ## The stream between the passes -/

/-- The closer of an index, still missing between the passes. -/
def lost (a : Token × Fate) : Bool :=
  a.2 == .drop && a.1.tag == .indexEnd

/-- The stream between the passes: only closers of indexes are missing from it. -/
def called (erasure : Erasure) : Tokens :=
  (erasure.filter fun a => !lost a).map Prod.fst

theorem called_append (left right : Erasure) :
    called (left ++ right) = called left ++ called right := by
  simp [called]

theorem called_cons (a : Token × Fate) (later : Erasure) :
    called (a :: later) = if lost a then called later else a.1 :: called later := by
  by_cases here : lost a = true
  · simp [called, here]
  · simp [called, here]

theorem lost_of_not_closer {a : Token × Fate} (notCloser : a.1.tag.isCloser = false) :
    lost a = false := by
  cases here : lost a with
  | false => rfl
  | true =>
      simp only [lost, Bool.and_eq_true, beq_iff_eq] at here
      rw [here.2] at notCloser
      cases notCloser

/-- Each closer that is missing lets an opener before it reach for one behind it. -/
theorem strays_called {forest : Forest (Token × Fate)} (level : (forest.map Prod.fst).Level)
    (rest : Tokens) :
    strays (called forest.flatten ++ rest) =
      (strays rest).drop (forest.flatten.countP lost) := by
  induction forest generalizing rest with
  | nil => rfl
  | leaf a next ih =>
      have here := lost_of_not_closer level.1.2
      rw [Forest.flatten, called_cons, here, if_neg Bool.false_ne_true, List.cons_append,
        strays_alone level.1, ih level.2, List.countP_cons_of_neg (by simp [here])]
  | pair o inside c next ihInside ihNext =>
      obtain ⟨⟨opens, closes⟩, inner, outer⟩ := level
      have here := lost_of_not_closer (Tag.isCloser_of_isOpener opens)
      rw [Forest.flatten, called_cons, here, if_neg Bool.false_ne_true, called_append, called_cons,
        List.cons_append, strays_opener opens, List.append_assoc, ihInside inner,
        List.countP_cons_of_neg (by simp [here]), List.countP_append, List.countP_cons,
        List.tail_drop]
      by_cases gone : lost c = true
      · rw [if_pos gone, if_pos gone, ihNext outer, List.drop_drop]
        congr 1
        omega
      · rw [if_neg gone, if_neg gone, List.cons_append, strays_closer closes, List.drop_succ_cons,
          ihNext outer, List.drop_drop]
        congr 1
        omega

theorem outside_of_none {erasure : Erasure} (none : erasure.countP lost = 0) (opened : Tokens) :
    Outside opened erasure := by
  induction erasure generalizing opened with
  | nil => trivial
  | cons a later ih =>
      simp only [List.countP_eq_zero, List.mem_cons, forall_eq_or_imp] at none ih
      refine ⟨fun dropped tag => ?_, ih none.2 _⟩
      simp [lost, dropped, tag] at none

/-- A closer missing inside a call lets the call reach beyond its own one. -/
theorem countP_lost_eq_zero {inside : Forest (Token × Fate)}
    (level : (inside.map Prod.fst).Level) {c : Token} (closes : c.tag.isCloser = true)
    {rest : Tokens} (noEnd : ∀ d ∈ strays rest, d.tag ≠ .callEnd)
    (meets : ∃ d ∈ (strays (called inside.flatten ++ c :: rest)).head?, d.tag = .callEnd) :
    inside.flatten.countP lost = 0 := by
  obtain ⟨d, first, tag⟩ := meets
  rw [strays_called level, strays_closer closes] at first
  cases count : inside.flatten.countP lost with
  | zero => rfl
  | succ more =>
      rw [count, List.drop_succ_cons] at first
      exact absurd tag (noEnd d (List.mem_of_mem_drop (List.mem_of_mem_head? first)))

/-- Where each call meets its own closer, nothing is missing inside a call. -/
theorem outside_of_shut {forest : Forest (Token × Fate)} (balanced : (forest.map Prod.fst).Balanced)
    {opened : Tokens} (noCall : ∀ o ∈ opened, o.tag ≠ .callStart) {rest : Tokens}
    (noEnd : ∀ c ∈ strays rest, c.tag ≠ .callEnd)
    (shut : Shut call (fun _ closer => closer.tag = .callEnd) (called forest.flatten ++ rest)) :
    Outside opened forest.flatten := by
  induction forest generalizing opened rest with
  | nil => trivial
  | leaf a next ih =>
      have here := lost_of_not_closer balanced.1.2
      rw [Forest.flatten, called_cons, here, if_neg Bool.false_ne_true, List.cons_append] at shut
      refine ⟨fun dropped tag => ?_, ?_⟩
      · simp [lost, dropped, tag] at here
      · rw [pend_alone balanced.1]
        exact ih balanced.2 noCall noEnd shut.2
  | pair o inside c next ihInside ihNext =>
      obtain ⟨partners, inner, outer⟩ := balanced
      have here := lost_of_not_closer (Tag.isCloser_of_isOpener partners.1)
      rw [Forest.flatten, called_cons, here, if_neg Bool.false_ne_true, called_append,
        List.cons_append, List.append_assoc] at shut
      obtain ⟨first, behind⟩ := shut
      have noEndNext : ∀ d ∈ strays (called next.flatten ++ rest), d.tag ≠ .callEnd := by
        rw [strays_called (Forest.Balanced.level outer)]
        exact fun d member => noEnd d (List.mem_of_mem_drop member)
      have within : Outside (o.1 :: opened) inside.flatten := by
        by_cases isCall : o.1.tag = .callStart
        · have closes : c.1.tag = .callEnd := (partners.tag_iff rfl).1 isCall
          have kept : lost c = false := by simp [lost, closes]
          have meets := exists_meets_iff.1 (first isCall)
          rw [called_cons, kept, if_neg Bool.false_ne_true, List.cons_append] at meets
          exact outside_of_none (countP_lost_eq_zero (Forest.Balanced.level inner)
            partners.brackets.2 noEndNext meets) _
        · refine ihInside inner ?_ ?_ behind
          · simpa [isCall] using noCall
          · intro d member
            rw [called_cons] at member
            split at member
            · exact noEndNext d member
            · rw [List.cons_append, strays_closer partners.brackets.2] at member
              rcases List.mem_cons.1 member with rfl | later
              · exact fun tag => isCall ((partners.tag_iff rfl).2 tag)
              · exact noEndNext d later
      have later : Outside opened next.flatten := by
        refine ihNext outer noCall noEnd ?_
        have closing := behind.of_append
        rw [called_cons] at closing
        split at closing
        · exact closing
        · exact closing.2
      have level : (source inside.flatten).foldl pend (o.1 :: opened) = o.1 :: opened := by
        rw [source, ← Forest.flatten_map, foldl_pend_flatten (Forest.Balanced.level inner)]
      refine ⟨fun dropped tag => ?_, ?_⟩
      · simp [lost, dropped, tag] at here
      · rw [pend_opener partners.1, outside_append, level]
        refine ⟨within, fun _ tag p member => ?_, by rwa [pend_closer partners.brackets.2]⟩
        rcases List.mem_cons.1 member with rfl | outerOne
        · have opens : o.1.tag = .indexStart := (partners.tag_iff rfl).2 tag
          rw [opens]
          decide
        · exact noCall p outerOne

end Erasure

/-! ## Only closers are added -/

namespace Closers

/-- The second stream is the first one with tokens of this tag put in. -/
inductive Adds (tag : Tag) : Tokens → Tokens → Prop
  | nil : Adds tag [] []
  | keep (t : Token) {tokens out : Tokens} (later : Adds tag tokens out) :
      Adds tag (t :: tokens) (t :: out)
  | add {t : Token} {tokens out : Tokens} (added : t.tag = tag) (later : Adds tag tokens out) :
      Adds tag tokens (t :: out)

namespace Adds

variable {tag : Tag} {tokens middle out : Tokens}

theorem refl (tokens : Tokens) : Adds tag tokens tokens := by
  induction tokens with
  | nil => exact .nil
  | cons t rest ih => exact .keep t ih

theorem put (front : Tokens) {t : Token} (added : t.tag = tag) (rest : Tokens) :
    Adds tag (front ++ rest) (front ++ t :: rest) := by
  induction front with
  | nil => exact .add added (.refl rest)
  | cons u front ih => exact .keep u ih

theorem trans (first : Adds tag tokens middle) (second : Adds tag middle out) :
    Adds tag tokens out := by
  induction second generalizing tokens with
  | nil => exact first
  | keep t _ ih =>
      cases first with
      | keep _ later => exact .keep t (ih later)
      | add added later => exact .add added (ih later)
  | add added _ ih => exact .add added (ih first)

end Adds

variable {construct : Construct}

/-- Closing one construct where each later one meets its own closer either adds its closer, or
takes a plain one for it. -/
theorem Closing.adds_or_countP_lt (stops : construct.Stops) {opener : Token}
    {later closed : Tokens} (closing : Closing construct opener later closed)
    (shut : Shut construct (fun _ closer => closer.tag = construct.closer) later) :
    (Adds construct.closer later closed ∧
        Shut construct (fun _ closer => closer.tag = construct.closer) closed ∧
        ∃ inside c rest, Meets closed inside c rest ∧ c.tag = construct.closer) ∨
      closed.countP (·.tag = plain construct.closer) <
        later.countP (·.tag = plain construct.closer) := by
  have own := stops.dedicated
  cases closing with
  | @own inside c rest level tag =>
      have closes := stops.isCloser_of_mem tag
      by_cases dedicated : c.tag = construct.closer
      · have same : c.retag construct.closer = c := by
          rw [← dedicated]
          rfl
        rw [same]
        exact .inl ⟨.refl _, shut, inside, c, rest, ⟨level, closes, rfl⟩, dedicated⟩
      · have isPlain : c.tag = plain construct.closer := by
          simpa [dedicated] using tag
        exact .inr (by simp [isPlain, own.symm])
  | dedent isCall outer inner opens group tag outdent =>
      exact .inr (by simp [List.countP_cons, tag, own.symm])
  | @generated inside next level ends =>
      have adds := Adds.put (t := Token.generated construct.closer opener) inside.flatten rfl next
      exact .inl ⟨adds, (shut_put_iff stops level stops.isCloser).2 shut, inside, _, next,
        ⟨level, stops.isCloser, rfl⟩, rfl⟩

/-- No other tag becomes more frequent. -/
theorem Closing.countP_le {opener : Token} {later closed : Tokens}
    (closing : Closing construct opener later closed) {tag : Tag} (other : tag ≠ construct.closer) :
    closed.countP (·.tag = tag) ≤ later.countP (·.tag = tag) := by
  cases closing with
  | own level own =>
      simp [List.countP_cons, other.symm]
  | dedent isCall outer inner opens group own outdent =>
      simp [List.countP_cons, other.symm]
  | generated level ends =>
      simp [other.symm]

theorem ClosesTo.countP_le {tokens out : Tokens} (closes : ClosesTo construct tokens out)
    {tag : Tag} (other : tag ≠ construct.closer) :
    out.countP (·.tag = tag) ≤ tokens.countP (·.tag = tag) := by
  induction closes with
  | nil => exact Nat.le_refl _
  | other _ _ ih =>
      simp only [List.countP_cons]
      omega
  | opener _ _ closing ih =>
      have fewer := closing.countP_le other
      simp only [List.countP_cons]
      omega

/-- Closing either adds closers, so that every construct meets its own, or takes plain ones for
them. -/
theorem ClosesTo.adds_or_countP_lt (stops : construct.Stops) {tokens out : Tokens}
    (closes : ClosesTo construct tokens out) :
    (Adds construct.closer tokens out ∧
        Shut construct (fun _ closer => closer.tag = construct.closer) out) ∨
      out.countP (·.tag = plain construct.closer) <
        tokens.countP (·.tag = plain construct.closer) := by
  induction closes with
  | nil => exact .inl ⟨.nil, trivial⟩
  | @other t rest later other _ ih =>
      simp only [List.countP_cons, Nat.add_lt_add_iff_right]
      rcases ih with ⟨adds, shut⟩ | fewer
      · exact .inl ⟨.keep t adds, fun opens => absurd opens other, shut⟩
      · exact .inr fewer
  | @opener t rest later closed opens behind closing ih =>
      simp only [List.countP_cons, Nat.add_lt_add_iff_right]
      have kept := behind.countP_le stops.dedicated
      have kept' := closing.countP_le stops.dedicated
      rcases ih with ⟨adds, shut⟩ | fewer
      · rcases closing.adds_or_countP_lt stops shut with ⟨adds', shut', meets⟩ | fewer
        · exact .inl ⟨.keep t (adds.trans adds'), fun _ => meets, shut'⟩
        · exact .inr (by omega)
      · exact .inr (by omega)

end Closers

namespace Erasure

/-! ## Between the passes -/

/-- How many dedicated closers a stream starts with. -/
def leading (tokens : Tokens) : Nat :=
  ((tokens.map Token.tag).takeWhile Tag.isDedicated).length

theorem leading_cons_dedicated {t : Token} (dedicated : t.tag.isDedicated = true)
    (rest : Tokens) : leading (t :: rest) = leading rest + 1 := by
  simp [leading, dedicated]

theorem leading_cons_other {t : Token} (other : t.tag.isDedicated = false) (rest : Tokens) :
    leading (t :: rest) = 0 := by
  simp [leading, other]

/-- Added closers do not shorten a run. -/
theorem leading_le_of_adds {tag : Tag} (dedicated : tag.isDedicated = true) {tokens out : Tokens}
    (adds : Adds tag tokens out) : leading tokens ≤ leading out := by
  induction adds with
  | nil => exact Nat.le_refl _
  | keep t later ih =>
      cases isDedicated : t.tag.isDedicated with
      | true =>
          rw [leading_cons_dedicated isDedicated, leading_cons_dedicated isDedicated]
          exact Nat.succ_le_succ ih
      | false =>
          rw [leading_cons_other isDedicated]
          exact Nat.zero_le _
  | add added later ih =>
      rw [leading_cons_dedicated (by rw [added]; exact dedicated)]
      exact Nat.le_succ_of_le ih

/-- A run that is not left out stays whole. -/
theorem leading_le_of_not_openEnded {rest : Tokens} (stays : openEnded rest = false) :
    leading rest ≤ leading (erased (shed rest)) := by
  induction rest with
  | nil => cases stays
  | cons t rest ih =>
      cases dedicated : t.tag.isDedicated with
      | true =>
          rw [openEnded_cons dedicated] at stays
          rw [erased_shed_keep (by simp [stays]), leading_cons_dedicated dedicated,
            leading_cons_dedicated dedicated]
          exact Nat.succ_le_succ (ih stays)
      | false =>
          rw [leading_cons_other dedicated]
          exact Nat.zero_le _

/-- A run that stays whole has no room for one more closer. -/
theorem not_adds_of_not_openEnded {t : Token} {rest middle out : Tokens}
    (dedicated : t.tag.isDedicated = true) (stays : (t.tag.isDedicated && openEnded rest) = false)
    (first : Adds .callEnd (t :: erased (shed rest)) middle) (second : Adds .indexEnd middle out)
    (same : out.map Token.tag = rest.map Token.tag) : False := by
  have whole : leading rest ≤ leading (erased (shed rest)) :=
    leading_le_of_not_openEnded (by simpa [dedicated] using stays)
  have calls := leading_le_of_adds rfl first
  have indexes := leading_le_of_adds rfl second
  rw [leading_cons_dedicated dedicated] at calls
  have length : leading out = leading rest := by rw [leading, same, leading]
  omega

/-- A stream that comes back lacks between the passes just the closers of indexes that were left
out: all of a run that was left out has to be added, and other runs have no room. -/
theorem map_tag_called {tokens middle out : Tokens}
    (first : Adds .callEnd (erased (shed tokens)) middle) (second : Adds .indexEnd middle out)
    (same : out.map Token.tag = tokens.map Token.tag) :
    middle.map Token.tag = (called (shed tokens)).map Token.tag := by
  induction tokens generalizing middle out with
  | nil =>
      obtain rfl := List.map_eq_nil_iff.1 same
      cases second
      rfl
  | cons t rest ih =>
      obtain ⟨u, out, rfl, tag, sameRest⟩ := List.map_eq_cons_iff.1 same
      cases dropped : (t.tag.isDedicated && openEnded rest) with
      | true =>
          have ⟨dedicated, ends⟩ := Bool.and_eq_true_iff.1 dropped
          rw [erased_shed_drop dedicated ends] at first
          rw [shed, dropped, if_pos rfl, called_cons]
          cases second with
          | keep _ second =>
              generalize left : erased (shed rest) = tokens at first
              cases first with
              | keep _ first =>
                  have outdent := outdent_of_openEnded ends u (by rw [left]; rfl)
                  rw [← tag, outdent] at dedicated
                  cases dedicated
              | add added first =>
                  subst left
                  have there : lost (t, .drop) = false := by simp [lost, ← tag, added]
                  rw [there, if_neg Bool.false_ne_true, List.map_cons, List.map_cons, tag,
                    ih first second sameRest]
          | add added second =>
              have gone : lost (t, .drop) = true := by simp [lost, ← tag, added]
              rw [if_pos gone, ih first second sameRest]
      | false =>
          rw [erased_shed_keep dropped] at first
          have crowded : u.tag.isDedicated = true → ∀ {middle : Tokens},
              Adds .callEnd (t :: erased (shed rest)) middle → Adds .indexEnd middle out → False :=
            fun dedicated _ first second => not_adds_of_not_openEnded (tag ▸ dedicated) dropped
              first second sameRest
          rw [shed, dropped, if_neg Bool.false_ne_true, called_cons,
            if_neg (by simp [lost])]
          cases second with
          | keep _ second =>
              cases first with
              | keep _ first => rw [List.map_cons, List.map_cons, ih first second sameRest]
              | add added first =>
                  exact (crowded (by rw [added]; rfl) first second).elim
          | add added second => exact (crowded (by rw [added]; rfl) first second).elim

/-- The calls of one stream are shut like those of another with the same tags. -/
theorem shut_call_of_map_tag {tokens tokens' : Tokens}
    (same : tokens.map Token.tag = tokens'.map Token.tag)
    (shut : Shut call (fun _ closer => closer.tag = .callEnd) tokens) :
    Shut call (fun _ closer => closer.tag = .callEnd) tokens' := by
  induction tokens generalizing tokens' with
  | nil =>
      obtain rfl := List.map_eq_nil_iff.1 same.symm
      trivial
  | cons t rest ih =>
      obtain ⟨u, rest', rfl, tag, sameRest⟩ := List.map_eq_cons_iff.1 same.symm
      refine ⟨fun opens => ?_, ih sameRest.symm shut.2⟩
      obtain ⟨closer, first, ends⟩ := exists_meets_iff.1 (shut.1 (tag ▸ opens))
      have strays_eq := congrArg List.head? (map_tag_strays sameRest)
      rw [List.head?_map, List.head?_map, first] at strays_eq
      obtain ⟨closer', first', tag'⟩ := Option.map_eq_some_iff.1 strays_eq
      exact exists_meets_iff.2 ⟨closer', first', tag'.trans ends⟩

/-! ## Both passes -/

/-- A stream that comes back has its closers added, not retagged. -/
theorem adds_of_restored {tokens middle out : Tokens}
    (calls : close call (erased (shed tokens)) = .ok middle)
    (indexes : close index middle = .ok out) (same : out.map Token.tag = tokens.map Token.tag) :
    Adds .callEnd (erased (shed tokens)) middle ∧
      Shut call (fun _ closer => closer.tag = .callEnd) middle ∧ Adds .indexEnd middle out := by
  -- a closer that is taken for a dedicated one is missing from the outcome
  have kept : ∀ tag : Tag, tag.isDedicated = false →
      out.countP (·.tag = tag) = (erased (shed tokens)).countP (·.tag = tag) := by
    intro tag other
    have count : ∀ stream : Tokens,
        stream.countP (·.tag = tag) = (stream.map Token.tag).countP (· = tag) := by
      intro stream
      rw [List.countP_map]
      rfl
    rw [countP_erased_shed other, count, same, count]
  have parens := kept .parenEnd rfl
  have brackets := kept .bracketEnd rfl
  have closes := closesTo_of_closeOnto call_stops calls
  have closes' := closesTo_of_closeOnto index_stops indexes
  have bracketsKept := closes.countP_le (show Tag.bracketEnd ≠ .callEnd by decide)
  have parensKept := closes'.countP_le (show Tag.parenEnd ≠ .indexEnd by decide)
  rcases closes.adds_or_countP_lt call_stops with ⟨adds, shut⟩ | fewer
  · rcases closes'.adds_or_countP_lt index_stops with ⟨adds', -⟩ | fewer
    · exact ⟨adds, shut, adds'⟩
    · have brackets' : out.countP (·.tag = .bracketEnd) < middle.countP (·.tag = .bracketEnd) :=
        fewer
      omega
  · have parens' : middle.countP (·.tag = .parenEnd) <
        (erased (shed tokens)).countP (·.tag = .parenEnd) := fewer
    omega

theorem outside_of_restored {tokens middle out : Tokens} (balanced : ensureBalance tokens = .ok ())
    (calls : close call (erased (shed tokens)) = .ok middle)
    (indexes : close index middle = .ok out) (same : out.map Token.tag = tokens.map Token.tag) :
    Outside [] (shed tokens) := by
  obtain ⟨adds, shut, adds'⟩ := adds_of_restored calls indexes same
  have shutCalls := shut_call_of_map_tag (map_tag_called adds adds' same) shut
  rw [← source_shed tokens] at balanced
  obtain ⟨above, nests, flat⟩ := (ensureBalance_iff_forest _).1 balanced
  obtain ⟨forest, whole, rfl⟩ := Forest.exists_map_eq Prod.fst above (shed tokens) flat.symm
  rw [← whole, ← List.append_nil (called _)] at shutCalls
  rw [← whole]
  exact outside_of_shut nests (by simp) (by simp [strays]) shutCalls

/-- **When the closers left out come back.**  The two closing passes give back the tags of a
balanced stream from which every run of dedicated closers before an `OUTDENT` or the end was left
out, just if no `INDEX_END` was left out inside a call. -/
theorem close_shed_iff (tokens : Tokens) (balanced : ensureBalance tokens = .ok ()) :
    (∃ middle out, Pass.closeCalls.apply (shed tokens).erased = .ok middle ∧
        Pass.closeIndexes.apply middle = .ok out ∧ out.map Token.tag = tokens.map Token.tag) ↔
      ∀ front t back, tokens = front ++ t :: back → t.tag = .indexEnd → openEnded back = true →
        ∀ o ∈ pending front, o.tag ≠ .callStart := by
  refine Iff.trans ?_ outside_shed_iff
  constructor
  · rintro ⟨middle, out, calls, indexes, same⟩
    exact outside_of_restored balanced calls indexes same
  · intro outside
    have whole := source_shed tokens
    have balanced' : ensureBalance (shed tokens).source = .ok () := by rwa [whole]
    obtain ⟨middle, calls, indexes⟩ := close_restored balanced' (permittedFrom_shed outside)
    exact ⟨middle, _, calls, indexes, (map_tag_restoredFrom [] _).trans (by rw [whole])⟩

/-- A block that ends with one construct inside another. -/
def openTogether (outer inner : Construct) : Tokens :=
  [.bare .indent, .bare outer.opener, .bare inner.opener, .bare inner.closer, .bare outer.closer,
   .bare .outdent]

theorem close_shed_iff_callInIndex :
    ensureBalance (openTogether index call) = .ok () ∧
      ∃ middle out, Pass.closeCalls.apply (shed (openTogether index call)).erased = .ok middle ∧
        Pass.closeIndexes.apply middle = .ok out ∧
          out.map Token.tag = (openTogether index call).map Token.tag := by
  have outside : Outside [] (shed (openTogether index call)) := by decide
  exact ⟨rfl, (close_shed_iff _ rfl).2 (outside_shed_iff.1 outside)⟩

/-- With the index inside the call, the `CALL_END` comes out behind the `OUTDENT`. -/
theorem not_restored_indexInCall :
    ¬∀ tokens, ensureBalance tokens = .ok () →
      ∃ middle out, Pass.closeCalls.apply (shed tokens).erased = .ok middle ∧
        Pass.closeIndexes.apply middle = .ok out ∧ out.map Token.tag = tokens.map Token.tag := by
  intro all
  obtain ⟨middle, out, calls, indexes, same⟩ := all (openTogether call index) rfl
  have first : Pass.closeCalls.apply (shed (openTogether call index)).erased =
      .ok [.bare .indent, .bare .callStart, .bare .indexStart, .bare .outdent,
        .generated .callEnd (.bare .callStart)] := rfl
  rw [first] at calls
  obtain rfl := Except.ok.inj calls
  have second : Pass.closeIndexes.apply [.bare .indent, .bare .callStart, .bare .indexStart,
      .bare .outdent, .generated .callEnd (.bare .callStart)] =
      .ok [.bare .indent, .bare .callStart, .bare .indexStart,
        .generated .indexEnd (.bare .indexStart), .bare .outdent,
        .generated .callEnd (.bare .callStart)] := rfl
  rw [second] at indexes
  obtain rfl := Except.ok.inj indexes
  revert same
  decide

end Erasure

end TokenLayout
