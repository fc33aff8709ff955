/-
# TokenLayout.Proofs.Notation.Lexing -- where a lexeme ends

At each place of a notation text the longest lexeme is cut off.  A piece of text is
that lexeme when all of it is made of the right characters and what comes next does
not go on with it (`Ends`).  One lemma for each kind of lexeme says so (`CutsOff`),
and asks no more of the text behind than that.

What stands between the lexemes of an entry, and between entries, begins with a blank,
a `#`, a quote or a plus sign (`Halts`).  The codes of the first three come before
those of all characters that go on with a lexeme, and a plus sign goes on with a
symbol only.
-/
import TokenLayout.Notation.Printer

namespace TokenLayout.Notation

set_option autoImplicit false

/-! ## Character codes -/

theorem isUpper_iff (c : Char) : c.isUpper = true ↔ 65 ≤ c.toNat ∧ c.toNat ≤ 90 := by
  delta Char.isUpper
  simp [UInt32.le_iff_toNat_le]

theorem isLower_iff (c : Char) : c.isLower = true ↔ 97 ≤ c.toNat ∧ c.toNat ≤ 122 := by
  delta Char.isLower
  simp [UInt32.le_iff_toNat_le]

theorem isAlpha_iff (c : Char) : c.isAlpha = true ↔ c.isUpper = true ∨ c.isLower = true :=
  Bool.or_eq_true_iff

theorem isDigit_iff (c : Char) : c.isDigit = true ↔ 48 ≤ c.toNat ∧ c.toNat ≤ 57 := by
  simp [Char.isDigit, UInt32.le_iff_toNat_le]

theorem toNat_eq_iff (c d : Char) : c = d ↔ c.toNat = d.toNat :=
  Char.toNat_inj.symm

theorem isNameChar_iff (c : Char) :
    isNameChar c = true ↔ (65 ≤ c.toNat ∧ c.toNat ≤ 90) ∨ c.toNat = 95 := by
  simp [isNameChar, isUpper_iff, toNat_eq_iff c]

theorem isWordStart_iff (c : Char) :
    isWordStart c = true ↔ (97 ≤ c.toNat ∧ c.toNat ≤ 122) ∨ c.toNat = 95 ∨ c.toNat = 36 := by
  simp [isWordStart, isLower_iff, toNat_eq_iff c, or_assoc]

theorem isWordChar_iff (c : Char) :
    isWordChar c = true ↔ (65 ≤ c.toNat ∧ c.toNat ≤ 90) ∨ (97 ≤ c.toNat ∧ c.toNat ≤ 122) ∨
      (48 ≤ c.toNat ∧ c.toNat ≤ 57) ∨ c.toNat = 95 ∨ c.toNat = 36 := by
  simp [isWordChar, Char.isAlphanum, isAlpha_iff, isUpper_iff, isLower_iff, isDigit_iff,
    toNat_eq_iff c, or_assoc]

theorem isBlank_iff (c : Char) :
    isBlank c = true ↔ c.toNat = 32 ∨ c.toNat = 9 ∨ c.toNat = 13 ∨ c.toNat = 10 ∨
      c.toNat = 12 := by
  simp [isBlank, toNat_eq_iff c, or_assoc]

theorem isSymbolChar_iff (c : Char) :
    isSymbolChar c = true ↔ c.toNat = 45 ∨ c.toNat = 43 ∨ c.toNat = 61 ∨ c.toNat = 62 ∨
      c.toNat = 58 ∨ c.toNat = 44 ∨ c.toNat = 46 ∨ c.toNat = 63 ∨ c.toNat = 40 ∨ c.toNat = 41 ∨
      c.toNat = 91 ∨ c.toNat = 93 ∨ c.toNat = 123 ∨ c.toNat = 125 := by
  simp [isSymbolChar, toNat_eq_iff c, or_assoc]

/-! ## Where a run ends -/

/-- What comes next is not of the class. -/
def Ends (p : Char → Bool) (rest : List Char) : Prop :=
  ∀ c ∈ rest.head?, p c = false

theorem ends_cons {p : Char → Bool} {c : Char} {rest : List Char} :
    Ends p (c :: rest) ↔ p c = false := by
  simp [Ends]

theorem ends_dropWhile (p : Char → Bool) (cs : List Char) : Ends p (cs.dropWhile p) := by
  intro d first
  have stops := List.head?_dropWhile_not p cs
  rw [Option.mem_def.1 first] at stops
  simpa using stops

/-- A run ends where the next character is not of its class. -/
theorem run_of_ends {p : Char → Bool} {text rest : List Char} (all : text.all p = true)
    (ends : Ends p rest) :
    (text ++ rest).takeWhile p = text ∧ (text ++ rest).dropWhile p = rest := by
  have taken : rest.takeWhile p = [] ∧ rest.dropWhile p = rest := by
    cases rest with
    | nil => exact ⟨rfl, rfl⟩
    | cons d rest => simp [ends_cons.1 ends]
  have members := List.all_eq_true.1 all
  rw [List.takeWhile_append_of_pos members, List.dropWhile_append_of_pos members, taken.1,
    taken.2, List.append_nil]
  exact ⟨rfl, rfl⟩

theorem cutRun_of_ends {p : Char → Bool} {text rest : List Char} (all : text.all p = true)
    (ends : Ends p rest) (found : Found) (c : Char) :
    cutRun found p c (text ++ rest) = ⟨found, c :: text, rest⟩ := by
  obtain ⟨taken, dropped⟩ := run_of_ends all ends
  rw [cutRun, taken, dropped]

/-- A piece of text is cut off in front of the rest. -/
def CutsOff (found : Found) (text rest : List Char) : Prop :=
  ∃ c cs, text ++ rest = c :: cs ∧ cut c cs = ⟨found, text, rest⟩

/-! ## The kinds of lexemes -/

section

variable {text rest : List Char}

/-- A text that reads as one name. -/
def isName : List Char → Bool
  | c :: cs => c.isUpper && cs.all isNameChar
  | [] => false

/-- A text that reads as one symbol. -/
def isSymbol : List Char → Bool
  | c :: cs => isSymbolChar c && cs.all isSymbolChar
  | [] => false

theorem cutsOff_gap {c : Char} (blank : isBlank c = true) (all : text.all isBlank = true)
    (ends : Ends isBlank rest) : CutsOff .gap (c :: text) rest :=
  ⟨c, text ++ rest, rfl, by rw [cut, if_pos blank, cutRun_of_ends all ends]⟩

/-- From `$` on no character is a blank, begins a comment or is a quote. -/
theorem cut_of_code {c : Char} (code : 36 ≤ c.toNat) (cs : List Char) :
    cut c cs =
      if c.isUpper then cutRun (.lexeme .name) isNameChar c cs
      else if isWordStart c then cutRun (.lexeme .word) isWordChar c cs
      else if c.isDigit then cutNumber c cs
      else if c = '+' then cutPlus cs
      else if isSymbolChar c then cutRun (.lexeme .symbol) isSymbolChar c cs
      else ⟨.stray, [c], cs⟩ := by
  have notBlank : ¬isBlank c = true := by rw [isBlank_iff]; omega
  have notHash : c ≠ '#' := by rw [ne_eq, toNat_eq_iff]; simp; omega
  have notQuote : c ≠ '"' := by rw [ne_eq, toNat_eq_iff]; simp; omega
  rw [cut, if_neg notBlank, if_neg notHash, if_neg notQuote]

theorem cutsOff_name (name : isName text = true) (ends : Ends isNameChar rest) :
    CutsOff (.lexeme .name) text rest := by
  cases text with
  | nil => cases name
  | cons c text =>
      obtain ⟨upper, all⟩ : c.isUpper = true ∧ text.all isNameChar = true := by
        simpa only [isName, Bool.and_eq_true] using name
      have code := (isUpper_iff c).1 upper
      refine ⟨c, text ++ rest, rfl, ?_⟩
      rw [cut_of_code (by omega), if_pos upper, cutRun_of_ends all ends]

theorem cutsOff_word (word : isWord text = true) (ends : Ends isWordChar rest) :
    CutsOff (.lexeme .word) text rest := by
  cases text with
  | nil => cases word
  | cons c text =>
      obtain ⟨start, all⟩ : isWordStart c = true ∧ text.all isWordChar = true := by
        simpa only [isWord, Bool.and_eq_true] using word
      have code := (isWordStart_iff c).1 start
      have notUpper : ¬c.isUpper = true := by rw [isUpper_iff]; omega
      refine ⟨c, text ++ rest, rfl, ?_⟩
      rw [cut_of_code (by omega), if_neg notUpper, if_pos start, cutRun_of_ends all ends]

/-- A character that begins a number. -/
theorem cut_digit {c : Char} (digit : c.isDigit = true) (cs : List Char) :
    cut c cs = cutNumber c cs := by
  have code := (isDigit_iff c).1 digit
  have notUpper : ¬c.isUpper = true := by rw [isUpper_iff]; omega
  have notStart : ¬isWordStart c = true := by rw [isWordStart_iff]; omega
  rw [cut_of_code (by omega), if_neg notUpper, if_neg notStart, if_pos digit]

/-- A number is a run of digits, or two with a point between. -/
theorem isNumber_cases (number : isNumber text = true) :
    (∃ c cs, text = c :: cs ∧ c.isDigit = true ∧ cs.all Char.isDigit = true) ∨
      ∃ c cs d ds, text = c :: (cs ++ '.' :: d :: ds) ∧ c.isDigit = true ∧
        cs.all Char.isDigit = true ∧ d.isDigit = true ∧ ds.all Char.isDigit = true := by
  have digits : ∀ part : List Char, (!part.isEmpty && part.all Char.isDigit) = true →
      ∃ c cs, part = c :: cs ∧ c.isDigit = true ∧ cs.all Char.isDigit = true := by
    intro part run
    cases part with
    | nil => cases run
    | cons c cs => exact ⟨c, cs, rfl, by simpa using run⟩
  have whole : text.takeWhile (· != '.') ++ text.dropWhile (· != '.') = text :=
    List.takeWhile_append_dropWhile
  unfold isNumber at number
  split at number
  · exact .inl (digits _ number)
  · rename_i point fraction beyond
    obtain ⟨first, second⟩ := Bool.and_eq_true_iff.1 number
    obtain ⟨c, cs, before, digit, all⟩ := digits _ first
    obtain ⟨d, ds, rfl, digit', all'⟩ := digits _ second
    have isPoint : point = '.' := by
      have head := List.head?_dropWhile_not (· != '.') text
      rw [beyond] at head
      simpa using head
    refine .inr ⟨c, cs, d, ds, ?_, digit, all, digit', all'⟩
    rw [before, beyond, isPoint] at whole
    exact whole.symm

/-- Digits are a number, unless a point and a digit come next. -/
theorem cutNumber_whole {c : Char} {whole rest : List Char} (all : whole.all Char.isDigit = true)
    (ends : Ends Char.isDigit rest)
    (noFraction : ∀ d more, rest = '.' :: d :: more → d.isDigit = false) :
    cutNumber c (whole ++ rest) = ⟨.lexeme .number, c :: whole, rest⟩ := by
  obtain ⟨taken, dropped⟩ := run_of_ends all ends
  rw [cutNumber, taken, dropped]
  split
  · rename_i d more
    rw [if_neg (by simp [noFraction d more rfl])]
  · rfl

/-- The point ends the digits before it, and a digit behind it makes it part of the number. -/
theorem cutNumber_fraction {c d : Char} {whole fraction rest : List Char}
    (all : whole.all Char.isDigit = true) (digit : d.isDigit = true)
    (all' : fraction.all Char.isDigit = true) (ends : Ends Char.isDigit rest) :
    cutNumber c (whole ++ '.' :: d :: (fraction ++ rest)) =
      ⟨.lexeme .number, c :: (whole ++ '.' :: d :: fraction), rest⟩ := by
  have point : Ends Char.isDigit ('.' :: d :: (fraction ++ rest)) := ends_cons.2 rfl
  obtain ⟨taken, dropped⟩ := run_of_ends all point
  obtain ⟨taken', dropped'⟩ := run_of_ends all' ends
  rw [cutNumber, taken, dropped]
  simp only [digit, if_true, taken', dropped', List.cons_append]

/-- Every text begins with digits, if only none, and behind them a fraction comes next or not. -/
theorem exists_digits (cs : List Char) :
    (∃ whole rest, cs = whole ++ rest ∧ whole.all Char.isDigit = true ∧ Ends Char.isDigit rest ∧
      ∀ d more, rest = '.' :: d :: more → d.isDigit = false) ∨
    ∃ whole d fraction rest, cs = whole ++ '.' :: d :: (fraction ++ rest) ∧
      whole.all Char.isDigit = true ∧ d.isDigit = true ∧ fraction.all Char.isDigit = true ∧
      Ends Char.isDigit rest := by
  have split : cs.takeWhile Char.isDigit ++ cs.dropWhile Char.isDigit = cs :=
    List.takeWhile_append_dropWhile
  by_cases point : ∃ d more, cs.dropWhile Char.isDigit = '.' :: d :: more ∧ d.isDigit = true
  · obtain ⟨d, more, rest, digit⟩ := point
    refine .inr ⟨cs.takeWhile Char.isDigit, d, more.takeWhile Char.isDigit,
      more.dropWhile Char.isDigit, ?_, List.all_takeWhile, digit, List.all_takeWhile,
      ends_dropWhile _ more⟩
    rw [List.takeWhile_append_dropWhile, ← rest, split]
  · refine .inl ⟨_, _, split.symm, List.all_takeWhile, ends_dropWhile _ cs, ?_⟩
    intro d more rest
    simpa using fun digit => point ⟨d, more, rest, digit⟩

theorem cutsOff_number (number : isNumber text = true)
    (ends : Ends (fun c => c.isDigit || c == '.') rest) : CutsOff (.lexeme .number) text rest := by
  have endsDigits : Ends Char.isDigit rest := by
    intro c first
    have neither := ends c first
    simp only [Bool.or_eq_false_iff] at neither
    exact neither.1
  rcases isNumber_cases number with ⟨c, cs, rfl, digit, all⟩ |
    ⟨c, cs, d, ds, rfl, digit, all, digit', all'⟩
  · refine ⟨c, cs ++ rest, rfl, ?_⟩
    rw [cut_digit digit]
    refine cutNumber_whole all endsDigits ?_
    rintro d more rfl
    cases ends_cons.1 ends
  · refine ⟨c, cs ++ '.' :: d :: (ds ++ rest), by simp, ?_⟩
    rw [cut_digit digit]
    exact cutNumber_fraction all digit' all' endsDigits

/-! ### Quoted texts -/

/-- A text that may stand between quotes: complete items, and no line feed. -/
def isInside : List Char → Bool
  | '\\' :: c :: cs => c != '\n' && isInside cs
  | c :: cs => c != '"' && c != '\\' && c != '\n' && isInside cs
  | [] => true

/-- A text in quotes. -/
def enclosed (inside : List Char) : List Char :=
  '"' :: (inside ++ ['"'])

theorem items_inside {inside : List Char} (complete : isInside inside = true) (rest : List Char) :
    items (inside ++ '"' :: rest) = (inside, '"' :: rest) := by
  fun_induction isInside inside with
  | case1 c cs ih =>
      obtain ⟨sameLine, later⟩ := Bool.and_eq_true_iff.1 complete
      simp only [List.cons_append, items]
      rw [if_neg (by simpa using sameLine), ih later]
  | case2 c cs notEscape ih =>
      simp only [Bool.and_eq_true, bne_iff_ne] at complete
      obtain ⟨⟨⟨notQuote, notBackslash⟩, sameLine⟩, later⟩ := complete
      rw [List.cons_append, items]
      · rw [if_neg (by simp [notQuote, notBackslash, sameLine]), ih later]
      · intro d ds same
        exact fun _ => notBackslash same
  | case3 => simp [items]

theorem cutsOff_quoted {inside : List Char} (complete : isInside inside = true)
    (rest : List Char) : CutsOff (.lexeme .quoted) (enclosed inside) rest := by
  refine ⟨'"', inside ++ '"' :: rest, by simp [enclosed], ?_⟩
  have quote : cut '"' (inside ++ '"' :: rest) = cutQuoted (inside ++ '"' :: rest) := rfl
  rw [quote, cutQuoted, items_inside complete]
  rfl

/-! ### Flags and symbols -/

theorem cutsOff_flag {word : List Char} (flag : word ∈ flagWords) (rest : List Char) :
    CutsOff (.lexeme .flag) ('+' :: word) rest := by
  refine ⟨'+', word ++ rest, rfl, ?_⟩
  have plus : cut '+' (word ++ rest) = cutPlus (word ++ rest) := rfl
  rw [plus]
  simp only [flagWords, List.mem_cons, List.not_mem_nil, or_false] at flag
  rcases flag with rfl | rfl | rfl <;> rfl

theorem cutPlus_symbol {cs : List Char} (notFlag : Ends Char.isLower cs) :
    cutPlus cs = cutRun (.lexeme .symbol) isSymbolChar '+' cs := by
  have none : flagWords.find? (fun word => word.isPrefixOf cs) = none := by
    cases cs with
    | nil => rfl
    | cons c cs =>
        have code : ¬(97 ≤ c.toNat ∧ c.toNat ≤ 122) := by
          rw [← isLower_iff, ends_cons.1 notFlag]
          decide
        have letters : c ≠ 'g' ∧ c ≠ 'e' ∧ c ≠ 't' := by
          simp only [ne_eq, toNat_eq_iff c]
          simp
          omega
        simp [flagWords, letters, Ne.symm]
  rw [cutPlus, none]

/-- A plus sign alone is no symbol in front of a letter, for it may begin a flag there. -/
theorem cutsOff_symbol (symbol : isSymbol text = true) (ends : Ends isSymbolChar rest)
    (notFlag : text.tail = [] → Ends Char.isLower rest) : CutsOff (.lexeme .symbol) text rest := by
  cases text with
  | nil => cases symbol
  | cons c text =>
      obtain ⟨first, all⟩ : isSymbolChar c = true ∧ text.all isSymbolChar = true := by
        simpa only [isSymbol, Bool.and_eq_true] using symbol
      have code := (isSymbolChar_iff c).1 first
      have notUpper : ¬c.isUpper = true := by rw [isUpper_iff]; omega
      have notStart : ¬isWordStart c = true := by rw [isWordStart_iff]; omega
      have notDigit : ¬c.isDigit = true := by rw [isDigit_iff]; omega
      -- only behind a plus sign that is the whole symbol could a flag begin
      have noLetter : Ends Char.isLower (text ++ rest) := by
        cases text with
        | nil => exact notFlag rfl
        | cons d text =>
            have member : isSymbolChar d = true := List.all_eq_true.1 all d (.head _)
            have second := (isSymbolChar_iff d).1 member
            rw [List.cons_append, ends_cons, ← Bool.not_eq_true, isLower_iff]
            omega
      refine ⟨c, text ++ rest, rfl, ?_⟩
      rw [cut_of_code (by omega), if_neg notUpper, if_neg notStart, if_neg notDigit]
      by_cases plus : c = '+'
      · subst plus
        rw [if_pos rfl, cutPlus_symbol noLetter, cutRun_of_ends all ends]
      · rw [if_neg plus, if_pos first, cutRun_of_ends all ends]

end

end TokenLayout.Notation
