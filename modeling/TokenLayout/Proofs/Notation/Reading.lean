/-
# TokenLayout.Proofs.Notation.Reading -- what an entry reads as

The reader takes up one lexeme after another, so it can be followed from place to
place (`readFrom`): what it makes of the text before a place is a `Progress`, and the
rest of the text decides the rest.

An entry is a stem with flags (`Entry`).  A stem is the name of a tag, alone or with a
quoted value, or a word, a number or a quoted text that says its own tag.  Every entry
that is put together right (`Entry.Fits`) reads as one token, located where the entry
stands unless it has a flag: main statement `readFrom_entry`.
-/
import TokenLayout.Proofs.Notation.Lexing

namespace TokenLayout.Notation

set_option autoImplicit false

/-! ## One lexeme at a time -/

/-- Take up all lexemes from some progress on. -/
def resume (progress : Progress) (lexed : Lexed) : Except ReadError Tokens := do
  let read ← lexed.lexemes.foldlM Progress.take progress
  match lexed.stray with
  | some stray => .error (.unexpectedText (String.ofList stray.text) stray.position)
  | none => .ok read.tokens.reverse

/-- Read on from a place in a text, right after a lexeme or not. -/
def readFrom (progress : Progress) (p : Position) (attached : Bool) (text : List Char) :
    Except ReadError Tokens :=
  resume progress (lexFrom p attached text)

theorem read_eq_readFrom (text : String) :
    read text = readFrom .empty Position.zero false text.toList :=
  rfl

section

variable {progress next : Progress} {p : Position} {attached : Bool} {kind : Kind}
  {text rest : List Char}

theorem readFrom_nil : readFrom progress p attached [] = .ok progress.tokens.reverse := by
  rw [readFrom, lexFrom]
  rfl

theorem readFrom_gap (cuts : CutsOff .gap text rest) :
    readFrom progress p attached (text ++ rest) =
      readFrom progress (p.afterText text) false rest := by
  obtain ⟨c, cs, split, piece⟩ := cuts
  rw [split, readFrom, lexFrom, piece]
  rfl

theorem resume_cons (l : Lexeme) (lexemes : List Lexeme) (stray : Option Stray) :
    resume progress ⟨l :: lexemes, stray⟩ =
      (progress.take l).bind fun next => resume next ⟨lexemes, stray⟩ := by
  simp only [resume, List.foldlM_cons]
  cases progress.take l <;> rfl

theorem readFrom_lexeme (cuts : CutsOff (.lexeme kind) text rest)
    (taken : progress.take ⟨kind, text, p, attached⟩ = .ok next) :
    readFrom progress p attached (text ++ rest) = readFrom next (p.afterText text) true rest := by
  obtain ⟨c, cs, split, piece⟩ := cuts
  rw [split, readFrom, lexFrom, piece]
  simp only [resume_cons, taken]
  rfl

theorem readFrom_fails (cuts : CutsOff (.lexeme kind) text rest) {error : ReadError}
    (failed : progress.take ⟨kind, text, p, attached⟩ = .error error) :
    readFrom progress p attached (text ++ rest) = .error error := by
  obtain ⟨c, cs, split, piece⟩ := cuts
  rw [split, readFrom, lexFrom, piece]
  simp only [resume_cons, failed]
  rfl

/-- A lexeme behind a gap starts a token, whatever came before. -/
theorem take_detached (kind : Kind) (text : List Char) (p : Position) :
    progress.take ⟨kind, text, p, false⟩ =
      (Progress.started ⟨kind, text, p, false⟩).map fun started =>
        ⟨started.1 :: progress.tokens, started.2⟩ := by
  rfl

end

/-! ## Positions -/

@[simp] theorem byteCount_append (text more : List Char) :
    byteCount (text ++ more) = byteCount text + byteCount more := by
  induction text with
  | nil => simp [byteCount]
  | cons c text ih =>
      simp only [List.cons_append, byteCount, ih]
      omega

theorem afterText_append (p : Position) (text more : List Char) :
    p.afterText (text ++ more) = (p.afterText text).afterText more :=
  List.foldl_append

/-- On one line a text moves the column by its bytes. -/
theorem afterText_line {text : List Char} (line : '\n' ∉ text) (p : Position) :
    p.afterText text = ⟨p.line, p.column + byteCount text⟩ := by
  induction text generalizing p with
  | nil => rfl
  | cons c text ih =>
      simp only [List.mem_cons, not_or] at line
      have step : p.after c = ⟨p.line, p.column + c.utf8Size⟩ := by
        rw [Position.after, if_neg (Ne.symm line.1)]
      have onward := ih line.2 (p.after c)
      rw [step] at onward
      rw [Position.afterText, List.foldl_cons, step, ← Position.afterText, onward, byteCount,
        Nat.add_assoc]

/-- Where a text stands that starts here. -/
def span (p : Position) (text : List Char) : Location :=
  ⟨p, ⟨p.line, p.column + (byteCount text - 1)⟩⟩

/-! ## Entries -/

/-- A flag of an entry. -/
inductive Flag where
  | generated
  | explicit
  | fromThen

namespace Flag

def word : Flag → List Char
  | generated => "gen".toList
  | explicit => "explicit".toList
  | fromThen => "then".toList

def text (flag : Flag) : List Char :=
  '+' :: flag.word

/-- What a flag makes of a token. -/
def mark : Flag → Token → Token
  | generated, t => { t with location := none, provenance := .generated }
  | explicit, t => { t with location := none, provenance := .explicit }
  | fromThen, t => { t with location := none, fromThen := true }

theorem flagged_text (flag : Flag) (t : Token) : Progress.flagged flag.text t = flag.mark t := by
  cases flag <;> rfl

theorem word_mem (flag : Flag) : flag.word ∈ flagWords := by
  cases flag <;> decide

end Flag

/-- An entry without its flags. -/
inductive Stem where
  /-- The name of a tag. -/
  | named (tag : Tag)
  /-- The name of a tag with a text in quotes. -/
  | valued (tag : Tag) (inside : List Char)
  | word (text : List Char)
  | number (text : List Char)
  /-- A text in quotes. -/
  | quoted (inside : List Char)

namespace Stem

def text : Stem → List Char
  | named tag => tag.name.toList
  | valued tag inside => tag.name.toList ++ enclosed inside
  | word text => text
  | number text => text
  | quoted inside => enclosed inside

def tag : Stem → Tag
  | named tag => tag
  | valued tag _ => tag
  | word text => (Tag.ofKeyword? (String.ofList text)).getD .identifier
  | number _ => .number
  | quoted _ => .stringLiteral

def value : Stem → String
  | named tag => tag.defaultText
  | valued _ inside => String.ofList (unescape inside)
  | word text => String.ofList text
  | number text => String.ofList text
  | quoted inside => String.ofList (enclosed inside)

/-- The token of a stem that starts here. -/
def token (stem : Stem) (p : Position) : Token :=
  { Token.bare stem.tag with value := stem.value, location := some (span p stem.text) }

/-- The stem is one lexeme, or a name and a quoted text. -/
def Fits : Stem → Prop
  | named _ => True
  | valued _ inside => isInside inside = true
  | word text => isWord text = true
  | number text => isNumber text = true
  | quoted inside => isInside inside = true

/-- A plus sign behind the stem begins a flag.  Behind a symbol it belongs to the symbol. -/
def takesFlags : Stem → Bool
  | named tag => !tag.isSymbolic
  | _ => true

/-- A quoted text right behind the stem is its value. -/
def acceptsValue : Stem → Bool
  | named _ => true
  | _ => false

end Stem

/-- An entry. -/
structure Entry where
  stem : Stem
  flags : List Flag

namespace Entry

def text (entry : Entry) : List Char :=
  entry.stem.text ++ entry.flags.flatMap Flag.text

/-- The token of an entry that starts here. -/
def token (entry : Entry) (p : Position) : Token :=
  entry.flags.foldl (fun t flag => flag.mark t) (entry.stem.token p)

/-- The entry reads as one token. -/
def Fits (entry : Entry) : Prop :=
  entry.stem.Fits ∧ (entry.stem.takesFlags = false → entry.flags = [])

end Entry

/-! ## What stands behind a stem -/

/-- What comes next is a gap, or nothing. -/
def Apart (rest : List Char) : Prop :=
  ∀ c ∈ rest.head?, isBlank c = true ∨ c = '#'

/-- What comes next is a gap, a quote, or nothing. -/
def Halts (rest : List Char) : Prop :=
  ∀ c ∈ rest.head?, isBlank c = true ∨ c = '#' ∨ c = '"'

theorem Apart.halts {rest : List Char} (apart : Apart rest) : Halts rest := by
  intro c first
  exact (apart c first).imp_right .inl

theorem Halts.code {rest : List Char} (halts : Halts rest) {c : Char} (first : c ∈ rest.head?) :
    c.toNat ≤ 35 := by
  rcases halts c first with blank | rfl | rfl
  · have code := (isBlank_iff c).1 blank
    omega
  · decide
  · decide

/-- Nothing that halts goes on with a lexeme. -/
theorem Halts.ends {rest : List Char} (halts : Halts rest) {p : Char → Bool}
    (above : ∀ c, p c = true → 36 ≤ c.toNat) : Ends p rest := by
  intro c first
  have code := halts.code first
  cases holds : p c with
  | false => rfl
  | true =>
      have low := above c holds
      omega

/-- Behind a stem comes a gap, a quote, or a flag if the stem takes one. -/
def Stem.Before (stem : Stem) (rest : List Char) : Prop :=
  Halts rest ∨ (stem.takesFlags = true ∧ rest.head? = some '+')

/-- A flag goes on with symbols only. -/
theorem Stem.Before.ends {stem : Stem} {rest : List Char} (before : stem.Before rest)
    {p : Char → Bool} (above : ∀ c, p c = true → 36 ≤ c.toNat) (plus : p '+' = false) :
    Ends p rest := by
  rcases before with halts | ⟨-, flag⟩
  · exact halts.ends above
  · intro c first
    rw [flag] at first
    rwa [← Option.some.inj first]

/-! ## Stems -/

theorem isName_name {tag : Tag} (word : tag.isSymbolic = false) :
    isName tag.name.toList = true := by
  cases tag <;> revert word <;> decide +kernel

theorem isSymbol_name {tag : Tag} (symbolic : tag.isSymbolic = true) :
    isSymbol tag.name.toList = true := by
  cases tag <;> revert symbolic <;> decide +kernel

theorem name_line (tag : Tag) : '\n' ∉ tag.name.toList := by
  cases tag <;> decide +kernel

section

variable {progress : Progress} {p : Position} {rest : List Char}

/-- The name of a tag is cut off as a name or as a symbol. -/
theorem cutsOff_tag {tag : Tag} (before : (Stem.named tag).Before rest) :
    CutsOff (.lexeme (if tag.isSymbolic then .symbol else .name)) tag.name.toList rest := by
  cases symbolic : tag.isSymbolic with
  | false =>
      refine cutsOff_name (isName_name symbolic) (before.ends ?_ rfl)
      intro c name
      have code := (isNameChar_iff c).1 name
      omega
  | true =>
      have halts : Halts rest := by
        rcases before with halts | ⟨takes, -⟩
        · exact halts
        · simp [Stem.takesFlags, symbolic] at takes
      refine cutsOff_symbol (isSymbol_name symbolic) (halts.ends ?_) fun _ => halts.ends ?_
      · intro c member
        have code := (isSymbolChar_iff c).1 member
        omega
      · intro c lower
        have code := (isLower_iff c).1 lower
        omega

theorem readFrom_named {tag : Tag} (before : (Stem.named tag).Before rest) :
    readFrom progress p false ((Stem.named tag).text ++ rest) =
      readFrom ⟨(Stem.named tag).token p :: progress.tokens, true⟩
        (p.afterText (Stem.named tag).text) true rest := by
  have found : Tag.ofName? (String.ofList (Stem.named tag).text) = some tag := by
    rw [Stem.text, String.ofList_toList, Tag.ofName?_name]
  have starts : ∀ kind, kind = .name ∨ kind = .symbol →
      Progress.started ⟨kind, (Stem.named tag).text, p, false⟩ =
        .ok ((Stem.named tag).token p, true) := by
    rintro _ (rfl | rfl) <;>
      · simp only [Progress.started, found]
        rfl
  refine readFrom_lexeme (cutsOff_tag before) ?_
  rw [take_detached, starts]
  · rfl
  · cases tag.isSymbolic
    · exact .inl rfl
    · exact .inr rfl

/-- A value right behind a name is the name's. -/
theorem readFrom_value {tag : Tag} {inside : List Char} (complete : isInside inside = true) :
    readFrom ⟨(Stem.named tag).token p :: progress.tokens, true⟩
        (p.afterText (Stem.named tag).text) true (enclosed inside ++ rest) =
      readFrom ⟨(Stem.valued tag inside).token p :: progress.tokens, false⟩
        (p.afterText (Stem.valued tag inside).text) true rest := by
  rw [Stem.text, Stem.text, afterText_append]
  refine readFrom_lexeme (cutsOff_quoted complete rest) ?_
  have value : quotedValue (enclosed inside) = String.ofList (unescape inside) := by
    simp [quotedValue, enclosed]
  have quote : 0 < byteCount (enclosed inside) := by
    have first : ('"').utf8Size = 1 := rfl
    simp only [enclosed, byteCount, first]
    omega
  -- the entry ends where its value does; a name has no line feed, so both are on its line
  have column : p.column + byteCount tag.name.toList + (byteCount (enclosed inside) - 1) =
      p.column + (byteCount tag.name.toList + byteCount (enclosed inside) - 1) := by
    omega
  simp only [Progress.take, if_true, and_self, Progress.valued, value]
  simp only [Stem.token, Stem.tag, Stem.value, Stem.text, Token.bare, Option.map_some, span,
    Lexeme.stop, afterText_line (name_line tag), byteCount_append, column]
  rfl

/-- **A stem reads as its token.** -/
theorem readFrom_stem {stem : Stem} (fits : stem.Fits) (before : stem.Before rest) :
    readFrom progress p false (stem.text ++ rest) =
      readFrom ⟨stem.token p :: progress.tokens, stem.acceptsValue⟩ (p.afterText stem.text) true
        rest := by
  cases stem with
  | named tag => exact readFrom_named before
  | valued tag inside =>
      have quote : Halts (enclosed inside ++ rest) := by
        intro c first
        exact .inr (.inr (Option.some.inj first).symm)
      rw [Stem.text, List.append_assoc]
      exact (readFrom_named (.inl quote)).trans (readFrom_value fits)
  | word text =>
      refine readFrom_lexeme (cutsOff_word fits (before.ends ?_ rfl)) rfl
      intro c word
      have code := (isWordChar_iff c).1 word
      omega
  | number text =>
      refine readFrom_lexeme (cutsOff_number fits (before.ends ?_ rfl)) rfl
      intro c member
      rcases Bool.or_eq_true_iff.1 member with digit | point
      · have code := (isDigit_iff c).1 digit
        omega
      · rw [beq_iff_eq] at point
        subst point
        decide
  | quoted inside => exact readFrom_lexeme (cutsOff_quoted fits rest) rfl

/-! ## Flags -/

/-- Flags mark the token they follow. -/
theorem readFrom_flags (flags : List Flag) (t : Token) (accepts : Bool) :
    readFrom ⟨t :: progress.tokens, accepts⟩ p true (flags.flatMap Flag.text ++ rest) =
      readFrom ⟨flags.foldl (fun t flag => flag.mark t) t :: progress.tokens,
        accepts && flags.isEmpty⟩ (p.afterText (flags.flatMap Flag.text)) true rest := by
  induction flags generalizing t accepts p with
  | nil => simp [Position.afterText]
  | cons flag flags ih =>
      have marks : (⟨t :: progress.tokens, accepts⟩ : Progress).take
          ⟨.flag, flag.text, p, true⟩ = .ok ⟨flag.mark t :: progress.tokens, false⟩ := by
        simp [Progress.take, Flag.flagged_text]
      rw [List.flatMap_cons, List.append_assoc, afterText_append, List.foldl_cons]
      refine (readFrom_lexeme (cutsOff_flag flag.word_mem _) marks).trans ?_
      -- behind a flag no value is accepted any more, so the induction goes on with `false`
      have taken : (accepts && (flag :: flags).isEmpty) = (false && flags.isEmpty) := by simp
      rw [taken]
      exact ih (flag.mark t) false

/-- **An entry reads as one token.** -/
theorem readFrom_entry {entry : Entry} (fits : entry.Fits) (apart : Apart rest)
    (progress : Progress) (p : Position) :
    ∃ accepts, readFrom progress p false (entry.text ++ rest) =
      readFrom ⟨entry.token p :: progress.tokens, accepts⟩ (p.afterText entry.text) true rest := by
  have before : entry.stem.Before (entry.flags.flatMap Flag.text ++ rest) := by
    cases flags : entry.flags with
    | nil => exact .inl apart.halts
    | cons flag later =>
        refine .inr ⟨?_, rfl⟩
        cases takes : entry.stem.takesFlags with
        | true => rfl
        | false =>
            rw [fits.2 takes] at flags
            cases flags
  refine ⟨entry.stem.acceptsValue && entry.flags.isEmpty, ?_⟩
  rw [Entry.text, List.append_assoc, readFrom_stem fits.1 before, afterText_append]
  exact readFrom_flags entry.flags (entry.stem.token p) entry.stem.acceptsValue

end

end TokenLayout.Notation
