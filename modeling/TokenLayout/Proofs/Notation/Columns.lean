/-
# TokenLayout.Proofs.Notation.Columns -- where the tokens of written notation stand

A written entry holds no line feed: bare values and names have none, and in a quoted
value it is escaped.  So written notation is one line, and an entry starts at the column
that the entries before it and the spaces between them take up (`columnOf`).

A token that is flagged loses its location when it is read, so which location a token
comes back with is known in full: main statement `read_write_located`.
-/
import Mathlib.Algebra.GroupWithZero.Nat
import TokenLayout.Proofs.Notation.RoundTrip

namespace TokenLayout.Notation

set_option autoImplicit false

/-! ## One line -/

theorem isInside_line {inside : List Char} (complete : isInside inside = true) :
    '\n' ∉ inside := by
  fun_induction isInside inside with
  | case1 c cs ih =>
      obtain ⟨sameLine, later⟩ := Bool.and_eq_true_iff.1 complete
      simp only [List.mem_cons, not_or]
      exact ⟨by decide, Ne.symm (by simpa using sameLine), ih later⟩
  | case2 c cs notEscape ih =>
      simp only [Bool.and_eq_true, bne_iff_ne] at complete
      obtain ⟨⟨-, sameLine⟩, later⟩ := complete
      simp only [List.mem_cons, not_or]
      exact ⟨Ne.symm sameLine, ih later⟩
  | case3 => simp

theorem enclosed_line {inside : List Char} (complete : isInside inside = true) :
    '\n' ∉ enclosed inside := by
  simp [enclosed, isInside_line complete]

/-- A class of characters whose codes lie above that of the line feed. -/
theorem line_of_all {p : Char → Bool} (above : ∀ c, p c = true → 11 ≤ c.toNat) {text : List Char}
    (all : text.all p = true) : '\n' ∉ text := by
  intro member
  have code := above _ (List.all_eq_true.1 all _ member)
  revert code
  decide

theorem Stem.Fits.line {stem : Stem} (fits : stem.Fits) : '\n' ∉ stem.text := by
  have digits : ∀ {c : Char} {cs : List Char}, c.isDigit = true → cs.all Char.isDigit = true →
      '\n' ∉ c :: cs := by
    intro c cs digit all
    refine line_of_all (p := Char.isDigit) (fun c digit => ?_) (by simp [digit, all])
    have code := (isDigit_iff c).1 digit
    omega
  cases stem with
  | named tag => exact name_line tag
  | valued tag inside => simpa [text, name_line tag] using enclosed_line fits
  | word text =>
      cases text with
      | nil => cases fits
      | cons c text =>
          obtain ⟨start, all⟩ := Bool.and_eq_true_iff.1 fits
          have first := (isWordStart_iff c).1 start
          have later := line_of_all (p := isWordChar) (fun c member => by
            have code := (isWordChar_iff c).1 member
            omega) all
          simp only [Stem.text, List.mem_cons, not_or]
          refine ⟨?_, later⟩
          rintro rfl
          revert first
          decide
  | number text =>
      rcases isNumber_cases fits with ⟨c, cs, rfl, digit, all⟩ |
        ⟨c, cs, d, ds, rfl, digit, all, digit', all'⟩
      · exact digits digit all
      · have whole := digits digit all
        have fraction := digits digit' all'
        simp only [List.mem_cons, not_or] at whole fraction
        simp [Stem.text, whole, fraction]
  | quoted inside => exact enclosed_line fits

theorem Entry.line {entry : Entry} (fits : entry.stem.Fits) : '\n' ∉ entry.text := by
  have flags : '\n' ∉ entry.flags.flatMap Flag.text := by
    intro member
    obtain ⟨flag, -, inFlag⟩ := List.mem_flatMap.1 member
    revert inFlag
    cases flag <;> decide
  simp [Entry.text, fits.line, flags]

/-! ## Columns -/

/-- The column at which the entry of the token at this index starts: the bytes of the entries
before it, and a space behind each. -/
def columnOf (tokens : Tokens) (index : Nat) : Nat :=
  ((tokens.take index).map fun t => byteCount (entry t).toList).sum + index

/-- The token is written with a flag. -/
def Flagged (t : Token) : Prop :=
  t.provenance ≠ .source ∨ t.fromThen = true

instance (t : Token) : Decidable (Flagged t) := by
  unfold Flagged
  infer_instance

theorem Flag.of_eq_nil_iff_not_flagged {t : Token} : Flag.of t = [] ↔ ¬Flagged t := by
  simp [Flag.of_eq_nil_iff, Flagged]

/-- Each token of a row of entries stands behind the entries before its own. -/
theorem getElem?_placed (p : Position) (entries : List Entry) (index : Nat) :
    (placed p entries)[index]? = entries[index]?.map fun entry =>
      entry.token (p.afterText (spaced (entries.take index))) := by
  induction entries generalizing p index with
  | nil => rfl
  | cons entry entries ih =>
      cases index with
      | zero => rfl
      | succ index =>
          simp only [placed, List.getElem?_cons_succ, List.take_succ_cons, ih, spaced,
            List.flatMap_cons]
          simp only [afterText_append]

theorem length_placed (p : Position) (entries : List Entry) :
    (placed p entries).length = entries.length := by
  induction entries generalizing p with
  | nil => rfl
  | cons entry entries ih => simp [placed, ih]

theorem byteCount_spaced (tokens : Tokens) :
    byteCount (spaced (tokens.map Entry.of)) =
      (tokens.map fun t => byteCount (entry t).toList).sum + tokens.length := by
  induction tokens with
  | nil => rfl
  | cons t tokens ih =>
      have space : byteCount [' '] = 1 := rfl
      simp only [spaced, List.map_cons, List.flatMap_cons, byteCount_append, Entry.text_of, space,
        List.sum_cons, List.length_cons] at ih ⊢
      omega

/-- Behind the first entries of written notation begins the column of the next one. -/
theorem afterText_spaced {tokens : Tokens} {index : Nat} (within : index ≤ tokens.length) :
    Position.zero.afterText (spaced ((tokens.take index).map Entry.of)) =
      ⟨0, columnOf tokens index⟩ := by
  have line : '\n' ∉ spaced ((tokens.take index).map Entry.of) := by
    intro member
    obtain ⟨entry, inRow, inEntry⟩ := List.mem_flatMap.1 member
    obtain ⟨t, -, rfl⟩ := List.mem_map.1 inRow
    have own := (Entry.of t).line (Stem.of_says t).1
    simp [own] at inEntry
  rw [afterText_line line, byteCount_spaced, List.length_take, Nat.min_eq_left within, columnOf]
  simp [Position.zero]

/-- The token that the entry of another one reads as. -/
theorem Entry.token_of (t : Token) (p : Position) :
    (Entry.of t).token p =
      { t with
        location := if Flagged t then none else some (span p (Entry.of t).text)
        origin := none } := by
  obtain ⟨-, tag, value, -⟩ := Stem.of_says t
  have mark := Flag.foldl_of t ((Stem.of t).token p) rfl rfl
  rw [Entry.token, Entry.of, mark]
  by_cases flagged : Flagged t
  · have some : Flag.of t ≠ [] := fun none => Flag.of_eq_nil_iff_not_flagged.1 none flagged
    simp [Stem.token, Token.bare, tag, value, some, flagged]
  · have none := Flag.of_eq_nil_iff_not_flagged.2 flagged
    simp [Stem.token, Token.bare, tag, value, none, flagged, Entry.text]

/-- **What written notation reads as, in full.**  If every flagged token is named by a word or
has a text of its own, then the notation of a stream reads as a stream of the same length.  Each
token comes back with its tag, value, provenance and mark of a `then` block, without an origin,
and, unless it is flagged, at its entry's place on the one line. -/
theorem read_write_located (tokens : Tokens)
    (legible : ∀ t ∈ tokens, Flagged t →
      t.tag.isSymbolic = false ∨ t.value ≠ t.tag.defaultText) :
    ∃ back : Tokens, read (write tokens) = .ok back ∧ back.length = tokens.length ∧
      ∀ (index : Nat) (t : Token), tokens[index]? = some t → ∃ u : Token, back[index]? = some u ∧
        u.tag = t.tag ∧ u.value = t.value ∧ u.provenance = t.provenance ∧
        u.fromThen = t.fromThen ∧ u.origin = none ∧
        (Flagged t → u.location = none) ∧
        (¬Flagged t → u.location = some
          ⟨⟨0, columnOf tokens index⟩,
            ⟨0, columnOf tokens index + (byteCount (entry t).toList - 1)⟩⟩) := by
  have all : ∀ t ∈ tokens, Legible t := by
    intro t member symbolic default
    by_contra flagged
    have isFlagged : Flagged t := by simpa [Flagged, Decidable.or_iff_not_imp_left] using flagged
    rcases legible t member isFlagged with word | own
    · rw [symbolic] at word
      cases word
    · exact own default
  refine ⟨_, read_write_of_legible all, by simp [length_placed], ?_⟩
  intro index t there
  have within : index < tokens.length := (List.getElem?_eq_some_iff.1 there).1
  have place := afterText_spaced (Nat.le_of_lt within)
  refine ⟨(Entry.of t).token ⟨0, columnOf tokens index⟩, ?_, ?_⟩
  · rw [getElem?_placed, List.getElem?_map, there, ← List.map_take, place]
    rfl
  · rw [Entry.token_of]
    refine ⟨rfl, rfl, rfl, rfl, rfl, fun flagged => if_pos flagged, fun notFlagged => ?_⟩
    rw [if_neg notFlagged, span, Entry.text_of]

/-- A quoted text of four bytes, a flagged name and a flagged symbol with a text of its own stand
before the word `x`. -/
theorem read_write_located_umlaut :
    let umlaut : Token := { Token.bare .stringLiteral with value := "\"ü\"" }
    let opener : Token := { Token.bare .indent with provenance := .generated, fromThen := true }
    let comma : Token := { Token.bare .comma with value := ";", provenance := .explicit }
    let name : Token := { Token.bare .identifier with value := "x" }
    let tokens : Tokens := [umlaut, opener, comma, name]
    (∀ t ∈ tokens, Flagged t → t.tag.isSymbolic = false ∨ t.value ≠ t.tag.defaultText) ∧
      write tokens = "\"ü\" INDENT+gen+then ,\";\"+explicit x" ∧
      ∃ back : Tokens, read (write tokens) = .ok back ∧
        (∃ u, back[1]? = some u ∧ u.provenance = .generated ∧ u.location = none) ∧
        ∃ u, back[3]? = some u ∧ u.value = "x" ∧ u.location = some ⟨⟨0, 35⟩, ⟨0, 35⟩⟩ := by
  intro umlaut opener comma name tokens
  have legible : ∀ t ∈ tokens, Flagged t →
      t.tag.isSymbolic = false ∨ t.value ≠ t.tag.defaultText := by
    decide +kernel
  obtain ⟨back, done, -, each⟩ := read_write_located tokens legible
  obtain ⟨u, second, -, -, generated, -, -, none, -⟩ := each 1 opener rfl
  obtain ⟨w, fourth, -, value, -, -, -, -, some⟩ := each 3 name rfl
  refine ⟨legible, by decide +kernel, back, done, ⟨u, second, generated, none (by decide)⟩,
    w, fourth, value, ?_⟩
  rw [some (by decide)]
  decide +kernel

end TokenLayout.Notation
