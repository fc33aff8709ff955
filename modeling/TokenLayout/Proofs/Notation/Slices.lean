/-
# TokenLayout.Proofs.Notation.Slices -- the text a location slices out

The location of a token that was read spans the bytes of its entry on the entry's line.  To cut
those bytes out again gives a text that reads as that token alone.

The entries of a text that is read stand in a row, and the token of each is located right behind
the text before it (`Row`).  Its line is the line feeds in that text and its column the bytes
behind the last of them (`exists_line`), and an entry holds no line feed itself, so it is cut out
of one line (`spans_span`).  Each entry starts where the ones before it have ended
(`Row.before_start`).

Main statement: `read_slices`.
-/
import Mathlib.Data.List.Induction
import TokenLayout.Proofs.Notation.Columns
import TokenLayout.Proofs.Notation.Lines

namespace TokenLayout

set_option autoImplicit false

/-! ## Positions in order -/

namespace Position

/-- Strictly before, in source order. -/
def Before (p q : Position) : Prop :=
  p.line < q.line ∨ (p.line = q.line ∧ p.column < q.column)

/-- No text leads back. -/
theorem Before.afterText {p q : Position} (before : p.Before q) (text : List Char) :
    p.Before (q.afterText text) := by
  induction text generalizing q with
  | nil => exact before
  | cons c text ih =>
      refine ih (q := q.after c) ?_
      unfold Before Position.after at *
      split
      · exact .inl (by dsimp only; omega)
      · dsimp only
        omega

end Position

namespace Notation

/-! ## Bytes -/

theorem size_utf8Encode (text : List Char) : text.utf8Encode.size = byteCount text := by
  induction text with
  | nil => rfl
  | cons c text ih =>
      rw [List.utf8Encode_cons, ByteArray.size_append, ih, byteCount, List.utf8Encode_singleton,
        List.size_toByteArray, String.length_utf8EncodeChar]

/-- The bytes of a piece of a text are those from its start to its end. -/
theorem extract_utf8Encode (left piece right : List Char) :
    (left ++ (piece ++ right)).utf8Encode.extract (byteCount left)
      (byteCount left + byteCount piece) = piece.utf8Encode := by
  have start : byteCount left = left.utf8Encode.size := (size_utf8Encode left).symm
  have stop : byteCount piece = piece.utf8Encode.size := (size_utf8Encode piece).symm
  have past := ByteArray.extract_append_size_add' (b := (piece ++ right).utf8Encode) (i := 0)
    (j := byteCount piece) start
  rw [Nat.add_zero] at past
  rw [List.utf8Encode_append, past, List.utf8Encode_append, ByteArray.extract_append_eq_left stop]

theorem byteCount_pos {text : List Char} (some_ : text ≠ []) : 0 < byteCount text := by
  cases text with
  | nil => exact absurd rfl some_
  | cons c text => exact Nat.add_pos_left c.utf8Size_pos _

/-! ## Lines -/

/-- The lines of a text, without the line feeds between them. -/
def lines (text : String) : List String :=
  (text.toList.splitOn '\n').map String.ofList

theorem length_splitOn (text : List Char) : (text.splitOn '\n').length = text.count '\n' + 1 := by
  induction text with
  | nil => rfl
  | cons c text ih =>
      rw [List.splitOn_cons_eq_if_modifyHead, List.count_cons]
      split
      · simp [ih]
      · simp [ih]

/-- The first line of a text begins with what holds no line feed. -/
theorem head?_splitOn {piece : List Char} (line : '\n' ∉ piece) (after : List Char) :
    ∃ right, ((piece ++ after).splitOn '\n')[0]? = some (piece ++ right) := by
  by_cases feed : '\n' ∈ after
  · obtain ⟨right, rest, rfl, ends⟩ := List.eq_append_cons_of_mem feed
    have whole : '\n' ∉ piece ++ right := by simp [line, ends]
    refine ⟨right, ?_⟩
    rw [← List.append_assoc, List.splitOn_append_cons_self_of_not_mem whole]
    rfl
  · have whole : '\n' ∉ piece ++ after := by simp [line, feed]
    exact ⟨after, by rw [List.splitOn_eq_singleton whole]; rfl⟩

/-- **The line of a piece.**  What holds no line feed stands on the line whose number is the line
feeds before it, behind as many bytes as there are from the last of those on. -/
theorem exists_line (before : List Char) {piece : List Char} (line : '\n' ∉ piece)
    (after : List Char) :
    ∃ left right,
      ((before ++ (piece ++ after)).splitOn '\n')[before.count '\n']? =
        some (left ++ (piece ++ right)) ∧
      Position.zero.afterText before = ⟨before.count '\n', byteCount left⟩ := by
  induction before using List.reverseRecOn generalizing piece with
  | nil =>
      obtain ⟨right, first⟩ := head?_splitOn line after
      exact ⟨[], right, first, rfl⟩
  | append_singleton before c ih =>
      rw [List.append_assoc, List.singleton_append, List.count_append, afterText_append]
      by_cases feed : c = '\n'
      · subst feed
        obtain ⟨right, first⟩ := head?_splitOn line after
        refine ⟨[], right, ?_, ?_⟩
        · rw [List.splitOn_append_cons_self, List.getElem?_append_right (by simp [length_splitOn]),
            length_splitOn]
          simpa using first
        · have counted := line_afterText Position.zero before
          rw [Position.zero, Nat.zero_add] at counted
          simp [Position.afterText, Position.after, byteCount, ← counted, Position.zero]
      · have longer : '\n' ∉ c :: piece := by simp [line, Ne.symm feed]
        obtain ⟨left, right, here, place⟩ := ih longer
        refine ⟨left ++ [c], right, ?_, ?_⟩
        · simpa [feed] using here
        · rw [place]
          simp [Position.afterText, Position.after, feed, byteCount]

/-! ## Entries in their places -/

theorem Stem.Fits.ne_nil {stem : Stem} (fits : stem.Fits) : stem.text ≠ [] := by
  cases stem with
  | named tag => cases tag <;> decide +kernel
  | valued tag inside => simp [text, enclosed]
  | word text =>
      rintro rfl
      cases fits
  | number text =>
      rintro rfl
      cases fits
  | quoted inside => exact List.cons_ne_nil _ _

theorem Entry.byteCount_pos {entry : Entry} (fits : entry.stem.Fits) :
    0 < byteCount entry.text := by
  have stem := Notation.byteCount_pos fits.ne_nil
  rw [Entry.text, byteCount_append]
  omega

/-- A located token is that of an entry without flags, and its location spans the entry. -/
theorem Entry.location_token {entry : Entry} {p : Position} {l : Location}
    (located : (entry.token p).location = some l) : entry.flags = [] ∧ l = span p entry.text := by
  have none : entry.flags = [] := by
    refine (entry.denotes_token p).location.1 ?_
    rw [located]
    rfl
  refine ⟨none, ?_⟩
  rw [Entry.token, none] at located
  rw [Entry.text, none, List.flatMap_nil, List.append_nil]
  exact (Option.some.inj located).symm

namespace Row

variable {start : Position} {entries : List Entry} {before text : List Char} {tokens : Tokens}

/-- Each token of a row is that of an entry in the whole text. -/
theorem exists_entry (row : Row start entries before text tokens) {t : Token} (member : t ∈ tokens) :
    ∃ (front : List Char) (entry : Entry) (after : List Char),
      before ++ text = front ++ (entry.text ++ after) ∧ entry.Fits ∧
        t = entry.token (start.afterText front) := by
  induction row with
  | nil => cases member
  | @cons before gap text entry entries tokens fits later ih =>
      rcases List.mem_cons.1 member with rfl | further
      · exact ⟨before ++ gap, entry, text, by simp, fits, rfl⟩
      · obtain ⟨front, entry', after, same, found⟩ := ih further
        exact ⟨front, entry', after, by simpa using same, found⟩

/-- The tokens of a row are located behind what is before the row. -/
theorem before_start (row : Row start entries before text tokens) {p : Position}
    (ahead : p.Before (start.afterText before)) :
    ∀ t ∈ tokens, ∀ l ∈ t.location, p.Before l.start := by
  induction row with
  | nil =>
      intro t member
      cases member
  | @cons before gap text entry entries tokens fits later ih =>
      intro t member l located
      rcases List.mem_cons.1 member with rfl | further
      · obtain ⟨-, rfl⟩ := Entry.location_token located
        rw [afterText_append]
        exact ahead.afterText gap
      · refine ih ?_ t further l located
        rw [afterText_append]
        exact ahead.afterText _

/-- The tokens of a row do not overlap. -/
theorem pairwise (row : Row start entries before text tokens) :
    tokens.Pairwise fun t u => ∀ l ∈ t.location, ∀ m ∈ u.location, l.stop.Before m.start := by
  induction row with
  | nil => exact .nil
  | @cons before gap text entry entries tokens fits later ih =>
      refine List.pairwise_cons.2 ⟨fun u member l located m located' => ?_, ih⟩
      refine later.before_start ?_ u member m located'
      obtain ⟨-, rfl⟩ := Entry.location_token located
      have bytes := Entry.byteCount_pos fits.1
      rw [afterText_behind, afterText_line (entry.line fits.1)]
      refine .inr ⟨rfl, ?_⟩
      show _ + (byteCount entry.text - 1) < _ + byteCount entry.text
      omega

end Row

/-! ## Slices -/

/-- A location spans this piece of a text.  It starts and stops on one line, and the bytes of that
line from the one to the other, both included, are those of the piece.  Before the piece there
are as many line feeds as the number of the line. -/
structure Spans (text : String) (l : Location) (piece : String) : Prop where
  oneLine : l.start.line = l.stop.line
  columns : l.start.column ≤ l.stop.column
  bytes : ∃ line, (lines text)[l.start.line]? = some line ∧ l.stop.column < line.utf8ByteSize ∧
    line.toUTF8.extract l.start.column (l.stop.column + 1) = piece.toUTF8
  newlines : ∃ before after, text = before ++ piece ++ after ∧
    before.toList.count '\n' = l.start.line ∧ Position.zero.afterText before.toList = l.start

theorem spans_span {text : String} {before piece after : List Char}
    (whole : text.toList = before ++ (piece ++ after)) (line : '\n' ∉ piece) (some_ : piece ≠ []) :
    Spans text (span (Position.zero.afterText before) piece) (String.ofList piece) := by
  obtain ⟨left, right, here, place⟩ := exists_line before line after
  have bytes := byteCount_pos some_
  have stop : byteCount left + (byteCount piece - 1) + 1 = byteCount left + byteCount piece := by
    omega
  rw [place]
  refine ⟨rfl, Nat.le_add_right _ _, ⟨String.ofList (left ++ (piece ++ right)), ?_, ?_, ?_⟩,
    String.ofList before, String.ofList after, ?_, ?_, ?_⟩
  · show (lines text)[before.count '\n']? = _
    rw [lines, List.getElem?_map, whole, here]
    rfl
  · rw [← String.size_toByteArray, String.toByteArray_ofList, size_utf8Encode, byteCount_append,
      byteCount_append]
    show byteCount left + (byteCount piece - 1) < _
    omega
  · rw [String.toUTF8_eq_toByteArray, String.toUTF8_eq_toByteArray, String.toByteArray_ofList,
      String.toByteArray_ofList]
    show ByteArray.extract _ (byteCount left) (byteCount left + (byteCount piece - 1) + 1) = _
    rw [stop, extract_utf8Encode]
  · rw [← String.toList_inj, whole]
    simp
  · rw [String.toList_ofList]
    rfl
  · rw [String.toList_ofList, place]
    rfl

/-- An entry without flags reads as one token. -/
theorem read_entry {entry : Entry} (fits : entry.Fits) (none : entry.flags = []) :
    ∃ u, read (String.ofList entry.text) = .ok [u] ∧ ¬Flagged u ∧ u.tag = entry.stem.tag ∧
      u.value = entry.stem.value := by
  have last : LaidOut true [] [] := .nil .nil
  have alone : LaidOut false [entry] entry.text := by
    have laid : LaidOut false [entry] ([] ++ (entry.text ++ [])) := .cons .nil nofun fits last
    simpa using laid
  obtain ⟨tokens, done, denotes⟩ := alone.readFrom .empty Position.zero
  obtain ⟨u, rest, denoted, nothing, rfl⟩ := List.forall₂_cons_left_iff.1 denotes
  obtain rfl := List.forall₂_nil_left_iff.1 nothing
  refine ⟨u, ?_, ?_, denoted.tag, denoted.value⟩
  · rw [read_eq_readFrom, String.toList_ofList]
    exact done
  · have source : u.provenance = .source := by
      rw [denoted.provenance, Entry.provenance, none]
      rfl
    have notThen : ¬u.fromThen = true := by
      rw [denoted.fromThen, none]
      exact List.not_mem_nil
    simp [Flagged, source, notThen]

/-- **The location of a token slices out its entry.**  To cut the bytes it spans out of their line
gives a piece that reads as one token without flags, with the tag and the value of the token.
Of two located tokens the earlier one stops strictly before the later one starts. -/
theorem read_slices {text : String} {tokens : Tokens} (done : read text = .ok tokens) :
    (∀ t ∈ tokens, ∀ l ∈ t.location, ∃ piece u, Spans text l piece ∧
      read piece = .ok [u] ∧ ¬Flagged u ∧ u.tag = t.tag ∧ u.value = t.value) ∧
    tokens.Pairwise fun t u => ∀ l ∈ t.location, ∀ m ∈ u.location, l.stop.Before m.start := by
  rw [read_eq_readFrom] at done
  obtain ⟨entries, laid⟩ := (sound text.toList).1 _ _ _ done
  obtain ⟨tokens', done', row⟩ := laid.row .empty Position.zero []
  obtain rfl : tokens = tokens' := Except.ok.inj (done.symm.trans done')
  refine ⟨fun t member l located => ?_, row.pairwise⟩
  obtain ⟨before, entry, after, whole, fits, rfl⟩ := row.exists_entry member
  obtain ⟨none, rfl⟩ := Entry.location_token located
  obtain ⟨u, alone, notFlagged, tag, value⟩ := read_entry fits none
  have denoted := entry.denotes_token (Position.zero.afterText before)
  have some_ : entry.text ≠ [] := by
    rw [Entry.text, none, List.flatMap_nil, List.append_nil]
    exact fits.1.ne_nil
  exact ⟨_, u, spans_span whole (entry.line fits.1) some_, alone, notFlagged,
    tag.trans denoted.tag.symm, value.trans denoted.value.symm⟩

/-- A flagged word with a comment behind it, and on the next line a quoted text of four bytes and a
comma with a text of its own. -/
theorem read_slices_umlaut :
    let text := "x+gen # ü\n \"ü\" ,\"ö\""
    ∃ tokens, read text = .ok tokens ∧
      (tokens.map fun t => (t.tag, t.value, t.location)) =
        [(.identifier, "x", none), (.stringLiteral, "\"ü\"", some ⟨⟨1, 1⟩, ⟨1, 4⟩⟩),
          (.comma, "ö", some ⟨⟨1, 6⟩, ⟨1, 10⟩⟩)] ∧
      ∃ piece u, Spans text ⟨⟨1, 6⟩, ⟨1, 10⟩⟩ piece ∧ read piece = .ok [u] ∧ ¬Flagged u ∧
        u.tag = .comma ∧ u.value = "ö" := by
  intro text
  have reads : ((read text).toOption.map fun tokens =>
      tokens.map fun t => (t.tag, t.value, t.location)) =
        some [(.identifier, "x", none), (.stringLiteral, "\"ü\"", some ⟨⟨1, 1⟩, ⟨1, 4⟩⟩),
          (.comma, "ö", some ⟨⟨1, 6⟩, ⟨1, 10⟩⟩)] := by
    decide +kernel
  cases done : read text with
  | error e =>
      rw [done] at reads
      cases reads
  | ok tokens =>
      rw [done] at reads
      have facts : (tokens.map fun t => (t.tag, t.value, t.location)) = _ := Option.some.inj reads
      have last : (Tag.comma, "ö", some (⟨⟨1, 6⟩, ⟨1, 10⟩⟩ : Location)) ∈
          tokens.map fun t => (t.tag, t.value, t.location) := by
        rw [facts]
        simp
      obtain ⟨t, member, same⟩ := List.mem_map.1 last
      simp only [Prod.mk.injEq] at same
      obtain ⟨tag, value, located⟩ := same
      obtain ⟨piece, u, spans, alone, notFlagged, tag', value'⟩ :=
        (read_slices done).1 t member _ located
      exact ⟨tokens, rfl, facts, piece, u, spans, alone, notFlagged, tag'.trans tag,
        value'.trans value⟩

end Notation

end TokenLayout
