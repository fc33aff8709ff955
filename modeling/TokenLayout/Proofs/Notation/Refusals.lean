/-
# TokenLayout.Proofs.Notation.Refusals -- where a text that is no notation is refused

An error names a piece of the text and the place where that piece stands.  What stands
before the piece is notation, and with the piece behind it no more, so this is the first
place at which reading can fail.

Reading the front of a text is not reading the text and stopping early, for a lexeme goes as
far as it can.  But a piece is cut off in the same way wherever the text ends behind it
(`CutsOff.shorten`): the characters that end a number, a symbol or an open quoted text end
it still when fewer of them are left, and so does the end of the text.  So the front is cut
up as it was (`exists_refused`).

Main statement: `read_error_first`.
-/
import Mathlib.Data.List.DropRight
import TokenLayout.Proofs.Notation.Slices

namespace TokenLayout

set_option autoImplicit false

/-- The place right behind a text that stands at the start of the source: as many lines down as
it has line feeds, and as many bytes in as stand behind the last of them. -/
def Position.behind (text : List Char) : Position :=
  ⟨text.count '\n', byteCount (text.rtakeWhile (· != '\n'))⟩

namespace Notation

/-! ## Where the text ends behind a piece -/

section

variable {found : Found} {c : Char} {text front back : List Char}

theorem Ends.shorten {p : Char → Bool} (ends : Ends p (front ++ back)) : Ends p front := by
  cases front with
  | nil =>
      intro c first
      cases first
  | cons c front => exact ends

theorem cutRun_shorten {p : Char → Bool} {found' : Found}
    (cuts : cutRun found' p c (text ++ (front ++ back)) = ⟨found, c :: text, front ++ back⟩) :
    cutRun found' p c (text ++ front) = ⟨found, c :: text, front⟩ := by
  obtain ⟨rfl, taken, dropped⟩ := Cut.mk.inj cuts
  have all : text.all p = true := by
    rw [← (List.cons.inj taken).2]
    exact List.all_takeWhile
  have ends := ends_dropWhile p (text ++ (front ++ back))
  rw [dropped] at ends
  exact cutRun_of_ends all ends.shorten found' c

theorem cutNumber_shorten
    (cuts : cutNumber c (text ++ (front ++ back)) = ⟨found, c :: text, front ++ back⟩) :
    cutNumber c (text ++ front) = ⟨found, c :: text, front⟩ := by
  rcases exists_digits (text ++ (front ++ back)) with
    ⟨whole, rest, same, all, ends, noFraction⟩ |
    ⟨whole, d, fraction, rest, same, all, digit, all', ends⟩
  · rw [same, cutNumber_whole all ends noFraction] at cuts
    obtain ⟨rfl, taken, rfl⟩ := Cut.mk.inj cuts
    obtain rfl := (List.cons.inj taken).2
    refine cutNumber_whole all ends.shorten ?_
    rintro d more rfl
    exact noFraction d (more ++ back) rfl
  · rw [same, cutNumber_fraction all digit all' ends] at cuts
    obtain ⟨rfl, taken, rfl⟩ := Cut.mk.inj cuts
    obtain rfl := (List.cons.inj taken).2
    rw [List.append_assoc]
    exact cutNumber_fraction all digit all' ends.shorten

/-- The items of a text end where they did, be it with the text. -/
theorem items_shorten {cs : List Char} (rest : (items cs).2 = front ++ back) :
    items ((items cs).1 ++ front) = ((items cs).1, front) := by
  fun_induction items cs with
  | case1 cs =>
      -- the backslash, and the line feed it does not take
      rcases front with - | ⟨c, - | ⟨d, front⟩⟩
      · rfl
      · obtain ⟨rfl, -⟩ := List.cons.inj rest
        rfl
      · obtain ⟨rfl, behind⟩ := List.cons.inj rest
        obtain ⟨rfl, -⟩ := List.cons.inj behind
        rfl
  | case2 c cs sameLine ih => simp [items, sameLine, ih rest]
  | case3 c cs notEscape ends =>
      cases front with
      | nil => rfl
      | cons d front =>
          obtain ⟨rfl, behind⟩ := List.cons.inj rest
          rw [List.nil_append, items, if_pos ends]
          rintro e more same rfl
          exact notEscape e _ same behind
  | case4 c cs notEscape plain ih =>
      rw [List.cons_append, items]
      · rw [if_neg plain, ih rest]
      · intro d ds same
        exact absurd same (not_or.1 (not_or.1 plain).2).1
  | case5 =>
      obtain rfl := (List.append_eq_nil_iff.1 rest.symm).1
      rfl

theorem cutQuoted_shorten
    (cuts : cutQuoted (text ++ (front ++ back)) = ⟨found, '"' :: text, front ++ back⟩) :
    cutQuoted (text ++ front) = ⟨found, '"' :: text, front⟩ := by
  cases read : items (text ++ (front ++ back)) with
  | mk inner rest =>
      have shorten : ∀ front' back', rest = front' ++ back' →
          items (inner ++ front') = (inner, front') := by
        rintro front' back' rfl
        have rest : (items (text ++ (front ++ back))).2 = front' ++ back' := by rw [read]
        have short := items_shorten rest
        rwa [read] at short
      rw [cutQuoted, read] at cuts
      split at cuts
      · rename_i inner rest closed
        obtain ⟨rfl, rfl⟩ := Prod.mk.inj closed
        obtain ⟨rfl, taken, rfl⟩ := Cut.mk.inj cuts
        obtain rfl := (List.cons.inj taken).2
        have again : items (inner ++ ['"'] ++ front) = (inner, '"' :: front) := by
          rw [List.append_assoc]
          exact shorten ('"' :: front) back rfl
        show cutQuoted (inner ++ ['"'] ++ front) = _
        rw [cutQuoted, again]
        rfl
      · rename_i inner rest notClosed same
        obtain ⟨rfl, rfl⟩ := Prod.mk.inj same
        obtain ⟨rfl, taken, rfl⟩ := Cut.mk.inj cuts
        obtain rfl := (List.cons.inj taken).2
        rw [cutQuoted, shorten front back rfl]
        cases front with
        | nil => rfl
        | cons c front =>
            have notQuote : c ≠ '"' := by
              rintro rfl
              exact notClosed _ rfl
            simp [notQuote]

theorem cutPlus_shorten
    (cuts : cutPlus (text ++ (front ++ back)) = ⟨found, '+' :: text, front ++ back⟩) :
    cutPlus (text ++ front) = ⟨found, '+' :: text, front⟩ := by
  unfold cutPlus at cuts
  split at cuts
  · rename_i word flag
    obtain ⟨rfl, taken, -⟩ := Cut.mk.inj cuts
    obtain rfl := (List.cons.inj taken).2
    obtain ⟨c, cs, same, piece⟩ := cutsOff_flag (List.mem_of_find?_eq_some flag) front
    obtain ⟨rfl, rfl⟩ := List.cons.inj same
    exact piece
  · rename_i nowhere
    -- what does not begin with a flag does not begin with one when less of it is left
    have noFlag : flagWords.find? (fun w => w.isPrefixOf (text ++ front)) = none := by
      rw [List.find?_eq_none] at nowhere ⊢
      intro w member flag
      refine nowhere w member (List.isPrefixOf_iff_prefix.2 ?_)
      rw [← List.append_assoc]
      exact (List.isPrefixOf_iff_prefix.1 flag).trans (List.prefix_append _ _)
    rw [cutPlus, noFlag]
    exact cutRun_shorten cuts

theorem cut_shorten
    (cuts : cut c (text ++ (front ++ back)) = ⟨found, c :: text, front ++ back⟩) :
    cut c (text ++ front) = ⟨found, c :: text, front⟩ := by
  unfold cut at cuts ⊢
  split_ifs at cuts ⊢ with blank hash upper start digit quote plus symbol
  · exact cutRun_shorten cuts
  · exact cutRun_shorten cuts
  · exact cutRun_shorten cuts
  · exact cutRun_shorten cuts
  · exact cutNumber_shorten cuts
  · subst quote
    exact cutQuoted_shorten cuts
  · subst plus
    exact cutPlus_shorten cuts
  · exact cutRun_shorten cuts
  · obtain ⟨rfl, taken, -⟩ := Cut.mk.inj cuts
    obtain rfl := (List.cons.inj taken).2
    rfl

/-- **A piece is cut off the same way wherever the text ends behind it.** -/
theorem CutsOff.shorten (cuts : CutsOff found text (front ++ back)) : CutsOff found text front := by
  obtain ⟨c, cs, same, piece⟩ := cuts
  cases text with
  | nil =>
      have less := length_cut_rest_le c cs
      rw [List.nil_append] at same
      rw [piece, same, List.length_cons] at less
      omega
  | cons d text =>
      obtain ⟨rfl, rfl⟩ := List.cons.inj same
      exact ⟨d, text ++ front, rfl, cut_shorten piece⟩

end

/-- Off every text something is cut. -/
theorem exists_cut (c : Char) (cs : List Char) :
    ∃ found text rest, CutsOff found text rest ∧ text ++ rest = c :: cs ∧ text ≠ [] := by
  have whole := cut_parts c cs
  refine ⟨(cut c cs).found, (cut c cs).text, (cut c cs).rest, ⟨c, cs, whole, rfl⟩, whole, ?_⟩
  intro none
  have less := length_cut_rest_le c cs
  rw [none, List.nil_append] at whole
  rw [whole, List.length_cons] at less
  omega

/-! ## Where reading fails -/

section

variable {progress : Progress} {p : Position} {attached : Bool} {text rest : List Char}
  {e : ReadError}

theorem readFrom_stray (cuts : CutsOff .stray text rest) :
    readFrom progress p attached (text ++ rest) =
      .error (.unexpectedText (String.ofList text) p) := by
  obtain ⟨c, cs, split, piece⟩ := cuts
  rw [split, readFrom, lexFrom, piece]
  rfl

theorem started_error {l : Lexeme} (failed : Progress.started l = .error e) :
    e.text = String.ofList l.text ∧ e.position = l.start := by
  obtain ⟨kind, text, p, attached⟩ := l
  cases kind with
  | name | symbol =>
      simp only [Progress.started] at failed
      split at failed
      · cases failed
      · obtain rfl := Except.error.inj failed
        exact ⟨rfl, rfl⟩
  | word | number | quoted => cases failed
  | flag =>
      obtain rfl := Except.error.inj failed
      exact ⟨rfl, rfl⟩

/-- A lexeme that does not fit is the one that the error is about. -/
theorem take_error {l : Lexeme} (failed : progress.take l = .error e) :
    e.text = String.ofList l.text ∧ e.position = l.start := by
  unfold Progress.take at failed
  split at failed
  · split at failed
    · cases failed
    · split at failed
      · cases failed
      · obtain rfl := Except.error.inj failed
        exact ⟨rfl, rfl⟩
  · cases starts : Progress.started l with
    | ok start =>
        rw [starts] at failed
        cases failed
    | error e' =>
        rw [starts] at failed
        obtain rfl := Except.error.inj failed
        exact started_error starts

/-- Up to a place the text is read, and with the piece behind that place it is refused. -/
structure RefusedAt (progress : Progress) (p : Position) (attached : Bool)
    (before piece : List Char) (e : ReadError) : Prop where
  text : e.text = String.ofList piece
  position : e.position = p.afterText before
  accepted : ∃ tokens, readFrom progress p attached before = .ok tokens
  refused : readFrom progress p attached (before ++ piece) = .error e

/-- A piece that is refused at once. -/
theorem RefusedAt.here {piece : List Char} (text : e.text = String.ofList piece)
    (place : e.position = p) (refused : readFrom progress p attached (piece ++ []) = .error e) :
    RefusedAt progress p attached [] piece e := by
  rw [List.append_nil] at refused
  exact ⟨text, place, ⟨_, readFrom_nil⟩, refused⟩

/-- A piece that is refused behind one that is cut off and taken up. -/
theorem RefusedAt.behind {next : Progress} {attached' : Bool} {found : Found}
    {front before piece after : List Char}
    (cuts : CutsOff found front (before ++ (piece ++ after)))
    (onward : ∀ more, CutsOff found front more → readFrom progress p attached (front ++ more) =
      readFrom next (p.afterText front) attached' more)
    (later : RefusedAt next (p.afterText front) attached' before piece e) :
    RefusedAt progress p attached (front ++ before) piece e := by
  obtain ⟨text, place, ⟨tokens, accepted⟩, refused⟩ := later
  refine ⟨text, by rw [place, afterText_append], ⟨tokens, ?_⟩, ?_⟩
  · rw [onward before cuts.shorten, accepted]
  · rw [← List.append_assoc] at cuts
    rw [List.append_assoc, onward _ cuts.shorten, refused]

/-- **Reading fails at one piece.**  The induction goes piece by piece, and each that is taken up
is taken up of the front of the text as well. -/
theorem exists_refused (failed : readFrom progress p attached text = .error e) :
    ∃ before piece after, text = before ++ (piece ++ after) ∧ piece ≠ [] ∧
      RefusedAt progress p attached before piece e := by
  induction size : text.length using Nat.strongRecOn generalizing text progress p attached with
  | ind size ih =>
      subst size
      cases text with
      | nil =>
          rw [readFrom_nil] at failed
          cases failed
      | cons c cs =>
          obtain ⟨found, front, rest, cuts, whole, some_⟩ := exists_cut c cs
          have less : rest.length < (c :: cs).length := by
            have pos := List.length_pos_iff.2 some_
            rw [← whole, List.length_append]
            omega
          have parted : CutsOff found front ([] ++ rest) := cuts
          have alone := parted.shorten
          rw [← whole] at failed ⊢
          cases found with
          | gap =>
              have onward : ∀ more, CutsOff .gap front more →
                  readFrom progress p attached (front ++ more) =
                    readFrom progress (p.afterText front) false more :=
                fun more cuts => readFrom_gap cuts
              rw [onward rest cuts] at failed
              obtain ⟨before, piece, after, rfl, nonempty, later⟩ := ih _ less failed rfl
              exact ⟨front ++ before, piece, after, by simp, nonempty, later.behind cuts onward⟩
          | lexeme kind =>
              cases taken : progress.take ⟨kind, front, p, attached⟩ with
              | error e' =>
                  rw [readFrom_fails cuts taken] at failed
                  obtain rfl := Except.error.inj failed
                  obtain ⟨text, place⟩ := take_error taken
                  exact ⟨[], front, rest, rfl, some_,
                    .here text place (readFrom_fails alone taken)⟩
              | ok next =>
                  have onward : ∀ more, CutsOff (.lexeme kind) front more →
                      readFrom progress p attached (front ++ more) =
                        readFrom next (p.afterText front) true more :=
                    fun more cuts => readFrom_lexeme cuts taken
                  rw [onward rest cuts] at failed
                  obtain ⟨before, piece, after, rfl, nonempty, later⟩ := ih _ less failed rfl
                  exact ⟨front ++ before, piece, after, by simp, nonempty,
                    later.behind cuts onward⟩
          | stray =>
              rw [readFrom_stray cuts] at failed
              obtain rfl := Except.error.inj failed
              exact ⟨[], front, rest, rfl, some_, .here rfl rfl (readFrom_stray alone)⟩

end

/-! ## Places in a text -/

theorem afterText_zero (text : List Char) :
    Position.zero.afterText text = Position.behind text := by
  induction text using List.reverseRecOn with
  | nil => rfl
  | append_singleton text c ih =>
      rw [afterText_append, ih]
      by_cases feed : c = '\n' <;>
        simp [Position.afterText, Position.after, Position.behind, feed, byteCount]

/-- Any character leads on. -/
theorem before_afterText (p : Position) {text : List Char} (some_ : text ≠ []) :
    p.Before (p.afterText text) := by
  cases text with
  | nil => exact absurd rfl some_
  | cons c text =>
      have step : p.Before (p.after c) := by
        have bytes := c.utf8Size_pos
        unfold Position.Before Position.after
        split
        · exact .inl (Nat.lt_succ_self _)
        · exact .inr ⟨rfl, Nat.lt_add_of_pos_right bytes⟩
      exact step.afterText text

/-- No two places of a text are the same. -/
theorem behind_inj {before before' after after' : List Char}
    (whole : before ++ after = before' ++ after')
    (same : Position.behind before = Position.behind before') : before = before' := by
  have apart : ∀ {front more : List Char},
      Position.behind front = Position.behind (front ++ more) → more = [] := by
    intro front more same
    by_contra some_
    have leads := before_afterText (Position.zero.afterText front) some_
    rw [← afterText_append, afterText_zero, afterText_zero, ← same] at leads
    rcases leads with line | ⟨-, column⟩
    · exact Nat.lt_irrefl _ line
    · exact Nat.lt_irrefl _ column
  rcases List.append_eq_append_iff.1 whole with ⟨more, rfl, -⟩ | ⟨more, rfl, -⟩
  · rw [apart same, List.append_nil]
  · rw [apart same.symm, List.append_nil]

/-- **An error points at the first bad place.**  Its position is that of a character of the text,
and of no other one, and the text from there on starts with what the error names.  What stands
before that is read, and with it the same error comes about. -/
theorem read_error_first {text : String} {e : ReadError} (failed : read text = .error e) :
    ∃ before after : String, text = before ++ e.text ++ after ∧ e.text ≠ "" ∧
      e.position = Position.behind before.toList ∧
      (∀ front back : String, text = front ++ back →
        e.position = Position.behind front.toList → front = before) ∧
      (∃ tokens, read before = .ok tokens) ∧ read (before ++ e.text) = .error e := by
  rw [read_eq_readFrom] at failed
  obtain ⟨before, piece, after, whole, nonempty, told, place, accepted, refused⟩ :=
    exists_refused failed
  rw [afterText_zero] at place
  refine ⟨String.ofList before, String.ofList after, ?_, ?_, ?_, ?_, ?_, ?_⟩
  · rw [told, ← String.toList_inj, whole]
    simp
  · rw [told, ne_eq, ← String.toList_inj]
    simpa using nonempty
  · rw [place, String.toList_ofList]
  · intro front back split here
    have fronts : before ++ (piece ++ after) = front.toList ++ back.toList := by
      rw [← whole, split, String.toList_append]
    rw [behind_inj fronts (place.symm.trans here), String.ofList_toList]
  · rw [read_eq_readFrom, String.toList_ofList]
    exact accepted
  · rw [told, read_eq_readFrom, String.toList_append, String.toList_ofList, String.toList_ofList]
    exact refused

/-- On the second line a symbol stands right behind a number, and its point has no digit behind
it. -/
theorem read_error_first_point :
    let text := "\"ü\" a+gen # (\n1.() b"
    read text = .error (.missingSeparator ".()" ⟨1, 1⟩) ∧
      (∃ tokens, read "\"ü\" a+gen # (\n1" = .ok tokens) ∧
      read "\"ü\" a+gen # (\n1.()" = .error (.missingSeparator ".()" ⟨1, 1⟩) := by
  intro text
  have failed : read text = .error (.missingSeparator ".()" ⟨1, 1⟩) := by decide +kernel
  obtain ⟨before, after, -, -, -, unique, accepted, refused⟩ := read_error_first failed
  obtain rfl := unique "\"ü\" a+gen # (\n1" ".() b" (by decide +kernel) (by decide +kernel)
  exact ⟨failed, accepted, refused⟩

end Notation

end TokenLayout
