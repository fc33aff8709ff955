/-
# TokenLayout.Proofs.Notation.RoundTrip -- reading back what was written

The notation of a token is an entry (`Entry.of`), and it says the token again, whatever
its value: a value that stands bare reads as its tag, and a quoted one is escaped for
the reader (`unescape_escape`).  Entries are written with one space between them, so
the reader takes them up one by one.

One thing does not read back.  A symbol with the default text is written as its bare
name, and a flag right behind it begins with a plus sign, which the reader takes for
one more character of the symbol.  So a stream reads back just if its symbols with
default texts have no flags (`Legible`): main statement `read_write_iff`.
-/
import Mathlib.Data.List.Forall2
import TokenLayout.Proofs.Notation.Reading

namespace TokenLayout.Notation

set_option autoImplicit false

open List (Forall₂)

/-! ## Escapes -/

theorem unescape_escape (text : List Char) : unescape (escape text) = text := by
  induction text with
  | nil => rfl
  | cons c text ih =>
      rw [escape]
      split_ifs with quote backslash feed tab
      · simp [unescape, ih, quote]
      · simp [unescape, ih, backslash]
      · simp [unescape, ih, feed]
      · simp [unescape, ih, tab]
      · rw [List.singleton_append, unescape, ih]
        intro d ds same
        exact fun _ => backslash same

theorem isInside_escape (text : List Char) : isInside (escape text) = true := by
  induction text with
  | nil => rfl
  | cons c text ih =>
      rw [escape]
      split_ifs with quote backslash feed tab
      · simp [isInside, ih]
      · simp [isInside, ih]
      · simp [isInside, ih]
      · simp [isInside, ih]
      · rw [List.singleton_append, isInside]
        · simp [quote, backslash, feed, ih]
        · intro d ds same
          exact fun _ => backslash same

/-- A text in quotes that needs no escapes. -/
theorem isPlainString_cases {text : List Char} (plain : isPlainString text = true) :
    ∃ inside, text = enclosed inside ∧ isInside inside = true := by
  unfold isPlainString at plain
  split at plain
  · rename_i cs
    obtain ⟨last, all⟩ := Bool.and_eq_true_iff.1 plain
    have closes := List.dropLast_append_getLast? '"' (by simpa using last)
    refine ⟨cs.dropLast, by rw [enclosed, closes], ?_⟩
    generalize cs.dropLast = inside at all
    induction inside with
    | nil => rfl
    | cons c inside ih =>
        simp only [List.all_cons, Bool.and_eq_true, bne_iff_ne] at all
        obtain ⟨⟨⟨quote, backslash⟩, feed⟩, later⟩ := all
        rw [isInside]
        · simp [quote, backslash, feed, ih (by simpa using later)]
        · intro d ds same
          exact fun _ => backslash same
  · cases plain

/-! ## The entry of a token -/

/-- The flags of a token. -/
def Flag.of (t : Token) : List Flag :=
  (match t.provenance with
   | .source => []
   | .generated => [.generated]
   | .explicit => [.explicit]) ++ if t.fromThen then [.fromThen] else []

/-- The stem of a token's entry. -/
def Stem.of (t : Token) : Stem :=
  if readsBare t then
    match t.tag with
    | .number => .number t.value.toList
    | .stringLiteral => .quoted (t.value.toList.drop 1).dropLast
    | _ => .word t.value.toList
  else if t.value = t.tag.defaultText then .named t.tag
  else .valued t.tag (escape t.value.toList)

/-- The entry of a token. -/
def Entry.of (t : Token) : Entry :=
  ⟨Stem.of t, Flag.of t⟩

theorem Flag.of_eq_nil_iff {t : Token} :
    Flag.of t = [] ↔ t.provenance = .source ∧ t.fromThen = false := by
  unfold Flag.of
  cases t.provenance <;> cases t.fromThen <;> simp

theorem Flag.text_of (t : Token) : (Flag.of t).flatMap Flag.text = (entryFlags t).toList := by
  unfold Flag.of entryFlags
  cases t.provenance <;> cases t.fromThen <;> decide

/-- The flags of a token say how it was synthesized, and take the location away. -/
theorem Flag.foldl_of (t u : Token) (source : u.provenance = .source)
    (notThen : u.fromThen = false) :
    (Flag.of t).foldl (fun u flag => flag.mark u) u =
      { u with
        provenance := t.provenance
        fromThen := t.fromThen
        location := if Flag.of t = [] then u.location else none } := by
  obtain ⟨tag, value, location, provenance, origin, fromThen⟩ := u
  cases source
  cases notThen
  unfold Flag.of
  cases t.provenance <;> cases t.fromThen <;> simp [Flag.mark]

theorem readsBare_cases {t : Token} (bare : readsBare t = true) :
    (t.tag = .number ∧ isNumber t.value.toList = true) ∨
      (t.tag = .stringLiteral ∧ isPlainString t.value.toList = true) ∨
      (t.tag ≠ .number ∧ t.tag ≠ .stringLiteral ∧ isWord t.value.toList = true ∧
        (Tag.ofKeyword? t.value).getD .identifier = t.tag) := by
  unfold readsBare at bare
  split at bare
  · rename_i tag
    obtain ⟨word, keyword⟩ := Bool.and_eq_true_iff.1 bare
    rw [Option.isNone_iff_eq_none] at keyword
    exact .inr (.inr ⟨by simp [tag], by simp [tag], word, by rw [keyword, tag]; rfl⟩)
  · rename_i tag
    exact .inl ⟨tag, bare⟩
  · rename_i tag
    exact .inr (.inl ⟨tag, bare⟩)
  · rename_i notIdentifier notNumber notString
    obtain ⟨word, keyword⟩ := Bool.and_eq_true_iff.1 bare
    rw [beq_iff_eq] at keyword
    exact .inr (.inr ⟨notNumber, notString, word, by rw [keyword]; rfl⟩)

/-- **The stem of a token says its tag and value**, and is what is written. -/
theorem Stem.of_says (t : Token) :
    (Stem.of t).Fits ∧ (Stem.of t).tag = t.tag ∧ (Stem.of t).value = t.value ∧
      (Stem.of t).text = (entryBody t).toList := by
  unfold Stem.of entryBody
  by_cases bare : readsBare t = true
  · simp only [bare, if_true]
    rcases readsBare_cases bare with ⟨tag, number⟩ | ⟨tag, plain⟩ |
      ⟨notNumber, notString, word, keyword⟩
    · simp only [tag]
      exact ⟨number, rfl, String.ofList_toList, rfl⟩
    · obtain ⟨inside, text, complete⟩ := isPlainString_cases plain
      have inner : (t.value.toList.drop 1).dropLast = inside := by simp [text, enclosed]
      simp only [tag, inner]
      refine ⟨complete, rfl, ?_, text.symm⟩
      rw [Stem.value, ← text, String.ofList_toList]
    · split
      · rename_i tag
        exact absurd tag notNumber
      · rename_i tag
        exact absurd tag notString
      · refine ⟨word, ?_, String.ofList_toList, rfl⟩
        rw [Stem.tag, String.ofList_toList, keyword]
  · have notBare : readsBare t = false := by simpa using bare
    simp only [notBare, Bool.false_eq_true, if_false]
    split
    · rename_i default
      exact ⟨trivial, rfl, default.symm, rfl⟩
    · refine ⟨isInside_escape _, rfl, ?_, ?_⟩
      · rw [Stem.value, unescape_escape, String.ofList_toList]
      · simp [Stem.text, enclosed]

theorem Entry.text_of (t : Token) : (Entry.of t).text = (entry t).toList := by
  rw [Entry.text, Entry.of, (Stem.of_says t).2.2.2, Flag.text_of, entry, String.toList_append]

/-- **The entry of a token reads as the token.** -/
theorem Entry.sameEntry_token_of (t : Token) (p : Position) :
    ((Entry.of t).token p).sameEntry t = true := by
  obtain ⟨-, tag, value, -⟩ := Stem.of_says t
  rw [Entry.token, Entry.of, Flag.foldl_of t _ rfl rfl, Token.sameEntry_iff]
  exact ⟨tag, value, rfl, rfl⟩

/-! ## Entries that read back -/

/-- A token whose entry reads back: a symbol with its default text has no flags. -/
def Legible (t : Token) : Prop :=
  t.tag.isSymbolic = true → t.value = t.tag.defaultText →
    t.provenance = .source ∧ t.fromThen = false

theorem Stem.takesFlags_of {t : Token} (symbol : (Stem.of t).takesFlags = false) :
    t.tag.isSymbolic = true ∧ t.value = t.tag.defaultText := by
  unfold Stem.of at symbol
  split at symbol
  · split at symbol <;> cases symbol
  · split at symbol
    · rename_i default
      exact ⟨by simpa [takesFlags] using symbol, default⟩
    · cases symbol

theorem Entry.fits_of {t : Token} (legible : Legible t) : (Entry.of t).Fits := by
  refine ⟨(Stem.of_says t).1, ?_⟩
  intro symbol
  obtain ⟨symbolic, default⟩ := Stem.takesFlags_of symbol
  exact Flag.of_eq_nil_iff.2 (legible symbolic default)

theorem Entry.fits_map_of {tokens : Tokens} (legible : ∀ t ∈ tokens, Legible t) :
    ∀ entry ∈ tokens.map Entry.of, entry.Fits := by
  intro entry member
  obtain ⟨t, inTokens, rfl⟩ := List.mem_map.1 member
  exact Entry.fits_of (legible t inTokens)

/-! ## Entries in a row -/

/-- The tokens of entries with a space behind each, from this place on. -/
def placed (p : Position) : List Entry → Tokens
  | [] => []
  | entry :: later => entry.token p :: placed (p.afterText (entry.text ++ [' '])) later

/-- Entries with a space behind each. -/
def spaced (entries : List Entry) : List Char :=
  entries.flatMap fun entry => entry.text ++ [' ']

theorem placed_concat (p : Position) (entries : List Entry) (last : Entry) :
    placed p (entries ++ [last]) =
      placed p entries ++ [last.token (p.afterText (spaced entries))] := by
  induction entries generalizing p with
  | nil => rfl
  | cons entry entries ih =>
      simp only [List.cons_append, placed, ih, spaced, List.flatMap_cons]
      rw [← afterText_append]

/-- An entry starts with no blank. -/
theorem Stem.Fits.ends {stem : Stem} (fits : stem.Fits) (more : List Char) :
    Ends isBlank (stem.text ++ more) := by
  have above : ∀ {c : Char} {cs : List Char}, 33 ≤ c.toNat → Ends isBlank (c :: cs) := by
    intro c cs code
    rw [ends_cons, ← Bool.not_eq_true, isBlank_iff]
    omega
  have named : ∀ (tag : Tag) (more : List Char), Ends isBlank (tag.name.toList ++ more) := by
    intro tag more
    cases symbolic : tag.isSymbolic with
    | false =>
        have name := isName_name symbolic
        cases text : tag.name.toList with
        | nil => simp [text, isName] at name
        | cons c cs =>
            simp only [text, isName, Bool.and_eq_true, isUpper_iff] at name
            exact above (by omega)
    | true =>
        have symbol := isSymbol_name symbolic
        cases text : tag.name.toList with
        | nil => simp [text, isSymbol] at symbol
        | cons c cs =>
            simp only [text, isSymbol, Bool.and_eq_true, isSymbolChar_iff] at symbol
            exact above (by omega)
  cases stem with
  | named tag => exact named tag more
  | valued tag inside =>
      rw [Stem.text, List.append_assoc]
      exact named tag _
  | word text =>
      cases text with
      | nil => cases fits
      | cons c text =>
          have start := (isWordStart_iff c).1 (Bool.and_eq_true_iff.1 fits).1
          exact above (by omega)
  | number text =>
      rcases isNumber_cases fits with ⟨c, cs, rfl, digit, -⟩ | ⟨c, cs, d, ds, rfl, digit, -⟩ <;>
        · have code := (isDigit_iff c).1 digit
          exact above (by omega)
  | quoted inside => exact above (by decide)

theorem Entry.ends {entry : Entry} (fits : entry.stem.Fits) (more : List Char) :
    Ends isBlank (entry.text ++ more) := by
  rw [Entry.text, List.append_assoc]
  exact fits.ends _

/-- **Entries in a row read as their tokens.** -/
theorem readFrom_spaced {entries : List Entry} (fits : ∀ entry ∈ entries, entry.Fits)
    (progress : Progress) (p : Position) {rest : List Char} (ends : Ends isBlank rest) :
    ∃ accepts, readFrom progress p false (spaced entries ++ rest) =
      readFrom ⟨(placed p entries).reverse ++ progress.tokens, accepts⟩
        (p.afterText (spaced entries)) false rest := by
  induction entries generalizing progress p with
  | nil => exact ⟨progress.acceptsValue, rfl⟩
  | cons entry entries ih =>
      -- the next entry starts with no blank, so the space behind this one is a gap of its own
      have later : Ends isBlank (spaced entries ++ rest) := by
        cases entries with
        | nil => exact ends
        | cons next entries =>
            simp only [spaced, List.flatMap_cons, List.append_assoc]
            exact Entry.ends (fits next (by simp)).1 _
      have apart : Apart (' ' :: (spaced entries ++ rest)) := by
        intro c first
        rw [← Option.some.inj first]
        exact .inl rfl
      have gap : CutsOff .gap [' '] (spaced entries ++ rest) := cutsOff_gap rfl rfl later
      obtain ⟨accepts, here⟩ := readFrom_entry (fits entry (.head _)) apart progress p
      obtain ⟨accepts', onward⟩ := ih (fun next member => fits next (.tail _ member))
        ⟨entry.token p :: progress.tokens, accepts⟩ (p.afterText (entry.text ++ [' ']))
      refine ⟨accepts', ?_⟩
      have text : spaced (entry :: entries) ++ rest =
          entry.text ++ ([' '] ++ (spaced entries ++ rest)) := by
        simp [spaced]
      have place : p.afterText (spaced (entry :: entries)) =
          (p.afterText (entry.text ++ [' '])).afterText (spaced entries) := by
        rw [← afterText_append]
        rfl
      rw [text, place]
      refine here.trans ((readFrom_gap gap).trans ?_)
      rw [← afterText_append, onward]
      simp [placed]

/-! ## Written streams -/

theorem intercalate_append_cons (separator : List Char) (front : List (List Char))
    (text : List Char) (back : List (List Char)) :
    separator.intercalate (front ++ text :: back) =
      front.flatMap (· ++ separator) ++ (text ++ back.flatMap (separator ++ ·)) := by
  induction front with
  | nil =>
      induction back generalizing text with
      | nil => simp
      | cons next back ih =>
          simp only [List.nil_append, List.flatMap_nil] at ih
          simp [List.intercalate_cons_cons, ih]
  | cons first front ih =>
      cases front with
      | nil =>
          simp only [List.nil_append, List.flatMap_nil] at ih
          simp [List.intercalate_cons_cons, ih]
      | cons second front =>
          simp only [List.cons_append] at ih
          simp [List.intercalate_cons_cons, ih]

/-- A stream is written entry by entry, with a space between two. -/
theorem toList_write (front : Tokens) (t : Token) (back : Tokens) :
    (write (front ++ t :: back)).toList = spaced (front.map Entry.of) ++
      ((Entry.of t).text ++ back.flatMap fun u => ' ' :: (Entry.of u).text) := by
  simp only [write, String.toList_intercalate, List.map_append, List.map_cons, List.map_map]
  rw [intercalate_append_cons]
  simp [spaced, Entry.text_of, List.flatMap_map, Function.comp_def]

/-- **A legible stream reads back.** -/
theorem read_write_of_legible {tokens : Tokens} (legible : ∀ t ∈ tokens, Legible t) :
    read (write tokens) = .ok (placed Position.zero (tokens.map Entry.of)) := by
  rcases List.eq_nil_or_concat tokens with rfl | ⟨front, last, rfl⟩
  · exact readFrom_nil
  · have fits : ∀ entry ∈ front.map Entry.of, entry.Fits :=
      Entry.fits_map_of fun t inFront => legible t (by simp [inFront])
    have fitsLast : (Entry.of last).Fits := Entry.fits_of (legible last (by simp))
    have starts : Ends isBlank ((Entry.of last).text ++ []) := Entry.ends fitsLast.1 _
    rw [List.concat_eq_append, read_eq_readFrom, toList_write, List.flatMap_nil]
    obtain ⟨accepts, before⟩ := readFrom_spaced fits .empty Position.zero starts
    have nothing : Apart [] := fun c none => by cases none
    obtain ⟨accepts', entry⟩ := readFrom_entry fitsLast nothing
      ⟨(placed Position.zero (front.map Entry.of)).reverse ++ Progress.empty.tokens, accepts⟩
      (Position.zero.afterText (spaced (front.map Entry.of)))
    rw [before, entry, readFrom_nil, List.map_append, List.map_cons, List.map_nil, placed_concat]
    simp [Progress.empty]

/-! ## Flags behind symbols -/

/-- A symbol with a plus sign is one longer symbol, and no tag has its name. -/
theorem symbol_plus {tag : Tag} (symbolic : tag.isSymbolic = true) :
    isSymbol (tag.name.toList ++ ['+']) = true ∧ (tag.name.toList ++ ['+']).tail ≠ [] ∧
      Tag.ofName? (tag.name ++ "+") = none := by
  cases tag <;> revert symbolic <;> decide +kernel

/-- The default text of a symbol is no word, so its token is written by the name. -/
theorem Stem.of_symbol {t : Token} (symbolic : t.tag.isSymbolic = true)
    (default : t.value = t.tag.defaultText) : Stem.of t = .named t.tag := by
  have notWord : ∀ tag : Tag, tag.isSymbolic = true →
      isWord tag.defaultText.toList = false ∧ tag ≠ .number ∧ tag ≠ .stringLiteral := by
    intro tag
    cases tag <;> decide +kernel
  obtain ⟨word, number, string⟩ := notWord t.tag symbolic
  have notBare : readsBare t = false := by
    cases bare : readsBare t with
    | false => rfl
    | true =>
        rcases readsBare_cases bare with ⟨tag, -⟩ | ⟨tag, -⟩ | ⟨-, -, bareWord, -⟩
        · exact absurd tag number
        · exact absurd tag string
        · rw [default, word] at bareWord
          cases bareWord
  rw [Stem.of, if_neg (by simp [notBare]), if_pos default]

/-- A flag behind a symbol makes a longer symbol of it, which is no tag. -/
theorem readFrom_illegible {t : Token} (illegible : ¬Legible t) (progress : Progress)
    (p : Position) (rest : List Char) :
    readFrom progress p false ((Entry.of t).text ++ rest) =
      .error (.unknownTag (t.tag.name ++ "+") p) := by
  obtain ⟨symbolic, default, flagged⟩ : t.tag.isSymbolic = true ∧
      t.value = t.tag.defaultText ∧ Flag.of t ≠ [] := by
    rw [ne_eq, Flag.of_eq_nil_iff]
    simpa only [Legible, Classical.not_imp] using illegible
  obtain ⟨symbol, long, unknown⟩ := symbol_plus symbolic
  obtain ⟨flag, flags, some⟩ := List.exists_cons_of_ne_nil flagged
  have text : (Entry.of t).text ++ rest = (t.tag.name.toList ++ ['+']) ++
      (flag.word ++ (flags.flatMap Flag.text ++ rest)) := by
    rw [Entry.text, Entry.of, Stem.of_symbol symbolic default, some]
    simp [Stem.text, Flag.text]
  -- the symbol takes the plus sign along, but none of the letters behind it
  have letters : Ends isSymbolChar (flag.word ++ (flags.flatMap Flag.text ++ rest)) := by
    cases flag <;> exact ends_cons.2 rfl
  have name : String.ofList (t.tag.name.toList ++ ['+']) = t.tag.name ++ "+" :=
    String.toList_inj.1 (by simp)
  rw [text]
  refine readFrom_fails (cutsOff_symbol symbol letters fun short => absurd short long) ?_
  rw [take_detached]
  simp only [Progress.started, name, unknown]
  rfl

/-- A stream that is not legible has a first token that is not. -/
theorem exists_first_illegible {tokens : Tokens} (illegible : ¬∀ t ∈ tokens, Legible t) :
    ∃ front t back, tokens = front ++ t :: back ∧ (∀ u ∈ front, Legible u) ∧ ¬Legible t := by
  induction tokens with
  | nil => exact absurd (fun t member => by cases member) illegible
  | cons t rest ih =>
      by_cases here : Legible t
      · have later : ¬∀ u ∈ rest, Legible u := by
          intro all
          exact illegible fun u member => by
            rcases List.mem_cons.1 member with rfl | behind
            · exact here
            · exact all u behind
        obtain ⟨front, u, back, rfl, legible, first⟩ := ih later
        refine ⟨t :: front, u, back, rfl, ?_, first⟩
        intro w member
        rcases List.mem_cons.1 member with rfl | behind
        · exact here
        · exact legible w behind
      · exact ⟨[], t, rest, rfl, by simp, here⟩

/-- **A stream that is not legible does not read back**: the first flagged symbol with its default
text is read as an unknown tag. -/
theorem read_write_of_illegible {front : Tokens} (legible : ∀ u ∈ front, Legible u) {t : Token}
    (illegible : ¬Legible t) (back : Tokens) :
    read (write (front ++ t :: back)) = .error (.unknownTag (t.tag.name ++ "+")
      (Position.zero.afterText (spaced (front.map Entry.of)))) := by
  have starts : Ends isBlank
      ((Entry.of t).text ++ back.flatMap fun u => ' ' :: (Entry.of u).text) :=
    Entry.ends (Stem.of_says t).1 _
  obtain ⟨accepts, before⟩ :=
    readFrom_spaced (Entry.fits_map_of legible) .empty Position.zero starts
  rw [read_eq_readFrom, toList_write, before, readFrom_illegible illegible]

/-! ## Round trips -/

theorem sameEntry_placed (p : Position) (tokens : Tokens) :
    Forall₂ (fun t u => t.sameEntry u = true) (placed p (tokens.map Entry.of)) tokens := by
  induction tokens generalizing p with
  | nil => exact .nil
  | cons t tokens ih => exact .cons (Entry.sameEntry_token_of t p) (ih _)

/-- **Which streams read back.**  What was written reads as the same tags, values, provenances
and marks of `then` blocks just if no symbol with its default text has a flag. -/
theorem read_write_iff (tokens : Tokens) :
    (∃ back, read (write tokens) = .ok back ∧
        Forall₂ (fun t u => t.sameEntry u = true) back tokens) ↔
      ∀ t ∈ tokens, Legible t := by
  constructor
  · rintro ⟨back, done, -⟩
    by_contra notAll
    obtain ⟨front, t, later, rfl, legible, illegible⟩ := exists_first_illegible notAll
    rw [read_write_of_illegible legible illegible] at done
    cases done
  · intro legible
    exact ⟨_, read_write_of_legible legible, sameEntry_placed _ _⟩

/-- A generated comma is written `,+gen`, and that does not read back. -/
theorem not_read_write_comma :
    ¬∀ tokens, ∃ back, read (write tokens) = .ok back ∧
      Forall₂ (fun t u => t.sameEntry u = true) back tokens := by
  intro everywhere
  let comma : Token := { Token.bare .comma with provenance := .generated }
  have illegible : ¬Legible comma := fun legible => by
    cases (legible (by decide +kernel) rfl).1
  obtain ⟨back, done, -⟩ := everywhere [comma]
  have before : ∀ u ∈ ([] : Tokens), Legible u := by simp
  have failed := read_write_of_illegible before illegible []
  rw [List.nil_append, done] at failed
  cases failed

end TokenLayout.Notation
