/-
# TokenLayout.Proofs.Notation.Grammar -- which texts are notation

Notation is a row of entries with gaps between them (`LaidOut`).  A gap is made of blanks
and comments (`Gap`), an entry of a stem and flags (`Entry`), and only gaps can part two
entries.

The reader accepts just the texts that are laid out so, and it makes one token of each
entry (`Entry.Denotes`): main statement `read_ok_iff_laidOut`.  That it accepts them all is an
induction on the layout, which also tells where each token is located (`LaidOut.row`).  That
it accepts no others is one on the length of the text: what was taken up since the last gap is
an entry so far, and each lexeme that is taken up makes a longer entry of it (`Continues`).
-/
import Mathlib.Data.List.TakeWhile
import TokenLayout.Proofs.Notation.RoundTrip

namespace TokenLayout.Notation

set_option autoImplicit false

open List (Forall₂)

/-! ## The grammar -/

/-- What may stand between entries: blanks and comments.  A comment goes to the end of its line,
which only in the last gap of a text may be the end of the text. -/
inductive Gap (last : Bool) : List Char → Prop where
  | nil : Gap last []
  | blank {c : Char} {text : List Char} : isBlank c = true → Gap last text → Gap last (c :: text)
  | comment {body text : List Char} :
      '\n' ∉ body → Gap last text → Gap last ('#' :: (body ++ '\n' :: text))
  | rest {body : List Char} : last = true → '\n' ∉ body → Gap last ('#' :: body)

/-- A text is laid out as these entries.  Gaps may stand everywhere between entries, and must not
be empty behind an entry. -/
inductive LaidOut : Bool → List Entry → List Char → Prop where
  | nil {behind : Bool} {gap : List Char} : Gap true gap → LaidOut behind [] gap
  | cons {behind : Bool} {gap text : List Char} {entry : Entry} {entries : List Entry} :
      Gap false gap → (behind = true → gap ≠ []) → entry.Fits → LaidOut true entries text →
      LaidOut behind (entry :: entries) (gap ++ (entry.text ++ text))

/-- The provenance a flag gives. -/
def Flag.provenance? : Flag → Option Provenance
  | generated => some .generated
  | explicit => some .explicit
  | fromThen => none

/-- The provenance that the last flag with one gives. -/
def Entry.provenance (entry : Entry) : Provenance :=
  (entry.flags.reverse.findSome? Flag.provenance?).getD .source

/-- The token is what the entry denotes. -/
structure Entry.Denotes (entry : Entry) (t : Token) : Prop where
  tag : t.tag = entry.stem.tag
  value : t.value = entry.stem.value
  provenance : t.provenance = entry.provenance
  fromThen : t.fromThen = true ↔ .fromThen ∈ entry.flags
  location : t.location.isSome = true ↔ entry.flags = []
  origin : t.origin = none

/-! ## The token of an entry -/

/-- Flags in a row: each mark stays, and of the provenances the last one. -/
theorem Flag.foldl_mark (flags : List Flag) (t : Token) :
    flags.foldl (fun t flag => flag.mark t) t =
      { t with
        location := if flags.isEmpty then t.location else none
        provenance := (flags.reverse.findSome? Flag.provenance?).getD t.provenance
        fromThen := t.fromThen || flags.any (· matches .fromThen) } := by
  induction flags generalizing t with
  | nil => simp
  | cons flag flags ih =>
      rw [List.foldl_cons, ih]
      cases flag <;> simp [mark, provenance?, List.findSome?_append]

theorem Entry.denotes_token (entry : Entry) (p : Position) : entry.Denotes (entry.token p) := by
  have marks := Flag.foldl_mark entry.flags (entry.stem.token p)
  have thens : (entry.flags.any (· matches .fromThen)) = true ↔ Flag.fromThen ∈ entry.flags := by
    rw [List.any_eq_true]
    constructor
    · rintro ⟨flag, member, isThen⟩
      cases flag <;> first | exact member | cases isThen
    · exact fun member => ⟨_, member, rfl⟩
  constructor
  · rw [Entry.token, marks]; rfl
  · rw [Entry.token, marks]; rfl
  · rw [Entry.token, marks]; rfl
  · rw [Entry.token, marks, ← thens]
    simp [Stem.token, Token.bare]
  · rw [Entry.token, marks]
    cases entry.flags <;> simp [Stem.token]
  · rw [Entry.token, marks]; rfl

/-! ## Gaps -/

section

variable {progress : Progress} {p : Position} {attached : Bool} {c : Char} {body rest : List Char}

/-- Blanks are skipped one by one. -/
theorem readFrom_blank (blank : isBlank c = true) :
    readFrom progress p attached (c :: rest) = readFrom progress (p.after c) false rest := by
  have here : readFrom progress p attached (c :: rest) =
      readFrom progress (p.afterText (c :: rest.takeWhile isBlank)) false
        (rest.dropWhile isBlank) := by
    rw [readFrom, lexFrom, cut, if_pos blank]
    rfl
  rw [here]
  cases rest with
  | nil => rfl
  | cons d rest =>
      cases next : isBlank d with
      | false =>
          rw [List.takeWhile_cons_of_neg (by simp [next]),
            List.dropWhile_cons_of_neg (by simp [next])]
          rfl
      | true =>
          rw [List.takeWhile_cons_of_pos next, List.dropWhile_cons_of_pos next]
          rw [readFrom, readFrom, lexFrom, cut, if_pos next]
          rfl

theorem cutsOff_comment (line : '\n' ∉ body) (ends : Ends (· != '\n') rest) :
    CutsOff .gap ('#' :: body) rest := by
  have all : body.all (· != '\n') = true := by
    simp only [List.all_eq_true, bne_iff_ne]
    rintro c member rfl
    exact line member
  exact ⟨'#', body ++ rest, rfl, cutRun_of_ends all ends .gap '#'⟩

/-- A comment is skipped together with the line feed behind it. -/
theorem readFrom_comment (line : '\n' ∉ body) :
    readFrom progress p attached ('#' :: (body ++ '\n' :: rest)) =
      readFrom progress (p.afterText ('#' :: (body ++ ['\n']))) false rest := by
  have cuts : CutsOff .gap ('#' :: body) ('\n' :: rest) := cutsOff_comment line (ends_cons.2 rfl)
  rw [← List.cons_append, readFrom_gap cuts, readFrom_blank rfl, ← List.cons_append,
    afterText_append]
  rfl

theorem readFrom_lastComment (line : '\n' ∉ body) :
    readFrom progress p attached ('#' :: body) = .ok progress.tokens.reverse := by
  have cuts : CutsOff .gap ('#' :: body) [] := cutsOff_comment line (fun c none => by cases none)
  have here : readFrom progress p attached ('#' :: body ++ []) = .ok progress.tokens.reverse :=
    (readFrom_gap cuts).trans readFrom_nil
  rwa [List.append_nil] at here

/-- A gap is skipped. -/
theorem Gap.readFrom_append {gap : List Char} (isGap : Gap false gap) :
    readFrom progress p attached (gap ++ rest) =
      readFrom progress (p.afterText gap) (attached && gap.isEmpty) rest := by
  induction isGap generalizing p attached with
  | nil => simp [Position.afterText]
  | @blank c text blank _ ih =>
      rw [List.cons_append, readFrom_blank blank, ih]
      simp [Position.afterText]
  | @comment body text line _ ih =>
      have split : '#' :: (body ++ '\n' :: text) = '#' :: (body ++ ['\n']) ++ text := by simp
      have whole : '#' :: (body ++ '\n' :: text) ++ rest =
          '#' :: (body ++ '\n' :: (text ++ rest)) := by simp
      rw [whole, readFrom_comment line, ih, split, afterText_append]
      simp
  | rest last => cases last

/-- Behind the last entry a gap ends the text. -/
theorem Gap.readFrom_last {gap : List Char} (isGap : Gap true gap) :
    readFrom progress p attached gap = .ok progress.tokens.reverse := by
  induction isGap generalizing p attached with
  | nil => exact readFrom_nil
  | blank blank _ ih => rw [readFrom_blank blank, ih]
  | comment line _ ih => rw [readFrom_comment line, ih]
  | rest _ line => exact readFrom_lastComment line

end

theorem Gap.apart {last : Bool} {gap : List Char} (isGap : Gap last gap) : Apart gap := by
  intro c first
  cases isGap with
  | nil => cases first
  | blank blank => exact .inl (Option.some.inj first ▸ blank)
  | comment => exact .inr (Option.some.inj first).symm
  | rest => exact .inr (Option.some.inj first).symm

/-! ## What is laid out is read -/

theorem LaidOut.apart {entries : List Entry} {text : List Char} (laid : LaidOut true entries text) :
    Apart text := by
  cases laid with
  | nil gap => exact gap.apart
  | @cons _ gap _ _ _ isGap some =>
      obtain ⟨c, cs, rfl⟩ := List.exists_cons_of_ne_nil (some rfl)
      intro d first
      exact isGap.apart d first

/-- Entries, a text behind another one, and tokens: those of the entries, which are in the text one
after the other, each token located behind everything before its entry. -/
inductive Row (start : Position) : List Entry → (before text : List Char) → Tokens → Prop
  | nil {before text : List Char} : Row start [] before text []
  | cons {before gap text : List Char} {entry : Entry} {entries : List Entry} {tokens : Tokens}
      (fits : entry.Fits) (later : Row start entries (before ++ (gap ++ entry.text)) text tokens) :
      Row start (entry :: entries) before (gap ++ (entry.text ++ text))
        (entry.token (start.afterText (before ++ gap)) :: tokens)

/-- The tokens of a row are what its entries say. -/
theorem Row.denotes {start : Position} {entries : List Entry} {before text : List Char}
    {tokens : Tokens} (row : Row start entries before text tokens) :
    Forall₂ Entry.Denotes entries tokens := by
  induction row with
  | nil => exact .nil
  | cons fits later ih => exact .cons (Entry.denotes_token _ _) ih

theorem afterText_behind (start : Position) (before gap text : List Char) :
    start.afterText (before ++ (gap ++ text)) =
      (start.afterText (before ++ gap)).afterText text := by
  rw [← List.append_assoc, afterText_append]

/-- What is laid out reads as a row of tokens. -/
theorem LaidOut.row {behind : Bool} {entries : List Entry} {text : List Char}
    (laid : LaidOut behind entries text) (progress : Progress) (start : Position)
    (before : List Char) :
    ∃ tokens, Notation.readFrom progress (start.afterText before) behind text =
      .ok (progress.tokens.reverse ++ tokens) ∧ Row start entries before text tokens := by
  induction laid generalizing progress before with
  | nil gap => exact ⟨[], by rw [gap.readFrom_last, List.append_nil], .nil⟩
  | @cons behind gap text entry entries isGap some fits later ih =>
      have parted : (behind && gap.isEmpty) = false := by
        cases behind with
        | false => rfl
        | true => simpa using some rfl
      obtain ⟨accepts, here⟩ := readFrom_entry fits later.apart progress
        (start.afterText (before ++ gap))
      obtain ⟨tokens, onward, row⟩ := ih
        ⟨entry.token (start.afterText (before ++ gap)) :: progress.tokens, accepts⟩
        (before ++ (gap ++ entry.text))
      refine ⟨_, ?_, .cons fits row⟩
      rw [afterText_behind] at onward
      rw [isGap.readFrom_append, parted, ← afterText_append, here, onward]
      simp

/-- **Entries that are laid out are read as what they say.** -/
theorem LaidOut.readFrom {behind : Bool} {entries : List Entry} {text : List Char}
    (laid : LaidOut behind entries text) (progress : Progress) (p : Position) :
    ∃ tokens, readFrom progress p behind text = .ok (progress.tokens.reverse ++ tokens) ∧
      Forall₂ Entry.Denotes entries tokens := by
  obtain ⟨tokens, done, row⟩ := laid.row progress p []
  exact ⟨tokens, done, row.denotes⟩

/-! ## Which lexemes there are -/

/-- The texts of a kind of lexeme. -/
def Kind.Spells : Kind → List Char → Prop
  | .name, text => isName text = true
  | .word, text => isWord text = true
  | .number, text => isNumber text = true
  | .quoted, text => ∃ inside, isInside inside = true ∧ text = enclosed inside
  | .flag, text => ∃ flag : Flag, text = flag.text
  | .symbol, text => isSymbol text = true

/-- A lexeme of this kind is cut off in front of the rest. -/
structure Lexes (kind : Kind) (text rest : List Char) : Prop where
  spells : kind.Spells text
  /-- A symbol goes as far as it can. -/
  ends : kind = .symbol → Ends isSymbolChar rest

/-- The piece is stray or a lexeme. -/
def Lexical (whole : List Char) (piece : Cut) : Prop :=
  piece.found = .stray ∨
    ∃ kind text rest, piece = ⟨.lexeme kind, text, rest⟩ ∧ text ++ rest = whole ∧
      Lexes kind text rest

section

variable (c : Char) (cs : List Char)

theorem Lexical.run {kind : Kind} {p : Char → Bool}
    (lexes : ∀ run rest, run.all p = true → Ends p rest → Lexes kind (c :: run) rest) :
    Lexical (c :: cs) (cutRun (.lexeme kind) p c cs) :=
  .inr ⟨kind, _, _, rfl, by simp, lexes _ _ List.all_takeWhile (ends_dropWhile p cs)⟩

theorem ne_point {c : Char} {cs : List Char} (digit : c.isDigit = true)
    (all : cs.all Char.isDigit = true) : ∀ d ∈ c :: cs, (d != '.') = true := by
  intro d member
  have isDigit : d.isDigit = true := by
    rcases List.mem_cons.1 member with rfl | later
    · exact digit
    · exact List.all_eq_true.1 all d later
  rw [bne_iff_ne]
  rintro rfl
  cases isDigit

theorem isNumber_digits {c : Char} {cs : List Char} (digit : c.isDigit = true)
    (all : cs.all Char.isDigit = true) : isNumber (c :: cs) = true := by
  have none : (c :: cs).dropWhile (· != '.') = [] :=
    List.dropWhile_eq_nil_iff.2 (ne_point digit all)
  rw [isNumber, none]
  simp [digit, all]

theorem isNumber_fraction {c d : Char} {cs ds : List Char} (digit : c.isDigit = true)
    (all : cs.all Char.isDigit = true) (digit' : d.isDigit = true)
    (all' : ds.all Char.isDigit = true) : isNumber (c :: cs ++ '.' :: d :: ds) = true := by
  have noPoint := ne_point digit all
  have front : (c :: cs ++ '.' :: d :: ds).takeWhile (· != '.') = c :: cs := by
    rw [List.takeWhile_append_of_pos noPoint]
    simp
  have back : (c :: cs ++ '.' :: d :: ds).dropWhile (· != '.') = '.' :: d :: ds := by
    rw [List.dropWhile_append_of_pos noPoint]
    simp
  rw [isNumber, front, back]
  simp [digit, all, digit', all']

theorem cutNumber_lexical {c : Char} (digit : c.isDigit = true) :
    Lexical (c :: cs) (cutNumber c cs) := by
  rcases exists_digits cs with ⟨whole, rest, rfl, all, ends, noFraction⟩ |
    ⟨whole, d, fraction, rest, rfl, all, digit', all', ends⟩
  · rw [cutNumber_whole all ends noFraction]
    exact .inr ⟨.number, _, _, rfl, rfl, isNumber_digits digit all, fun h => by cases h⟩
  · rw [cutNumber_fraction all digit' all' ends]
    refine .inr ⟨.number, _, _, rfl, by simp, ?_, fun h => by cases h⟩
    exact isNumber_fraction digit all digit' all'

theorem items_spec : (items cs).1 ++ (items cs).2 = cs ∧ isInside (items cs).1 = true := by
  fun_induction items cs with
  | case1 => exact ⟨rfl, rfl⟩
  | case2 c cs sameLine ih => simp [ih, isInside, sameLine]
  | case3 => exact ⟨rfl, rfl⟩
  | case4 c cs notEscape plain ih =>
      simp only [not_or] at plain
      refine ⟨by simp [ih.1], ?_⟩
      rw [isInside]
      · simp [plain, ih.2]
      · intro d ds same
        exact fun _ => plain.2.1 same
  | case5 => exact ⟨rfl, rfl⟩

theorem cutQuoted_lexical : Lexical ('"' :: cs) (cutQuoted cs) := by
  obtain ⟨whole, complete⟩ := items_spec cs
  unfold cutQuoted
  split
  · rename_i inner rest found
    rw [found] at whole complete
    refine .inr ⟨.quoted, _, _, rfl, ?_, ⟨inner, complete, rfl⟩, fun h => by cases h⟩
    simp [← whole]
  · exact .inl rfl

theorem Lexical.symbol {c : Char} (symbol : isSymbolChar c = true) :
    Lexical (c :: cs) (cutRun (.lexeme .symbol) isSymbolChar c cs) :=
  .run c cs fun run rest all ends => ⟨by simp [Kind.Spells, isSymbol, symbol, all], fun _ => ends⟩

theorem cutPlus_lexical : Lexical ('+' :: cs) (cutPlus cs) := by
  unfold cutPlus
  split
  · rename_i word found
    have isFront : word.isPrefixOf cs = true := by simpa using List.find?_some found
    obtain ⟨more, rfl⟩ := List.isPrefixOf_iff_prefix.1 isFront
    have member := List.mem_of_find?_eq_some found
    have flag : ∃ flag : Flag, word = flag.word := by
      simp only [flagWords, List.mem_cons, List.not_mem_nil, or_false] at member
      rcases member with rfl | rfl | rfl
      · exact ⟨.generated, rfl⟩
      · exact ⟨.explicit, rfl⟩
      · exact ⟨.fromThen, rfl⟩
    obtain ⟨flag, rfl⟩ := flag
    exact .inr ⟨.flag, _, _, rfl, by simp, ⟨flag, rfl⟩, fun h => by cases h⟩
  · exact .symbol cs rfl

theorem cut_lexical (notBlank : isBlank c = false) (notHash : c ≠ '#') :
    Lexical (c :: cs) (cut c cs) := by
  rw [cut, if_neg (by simp [notBlank]), if_neg notHash]
  split_ifs with upper start digit quote plus symbol
  · exact .run c cs fun run rest all _ =>
      ⟨by simp [Kind.Spells, isName, upper, all], fun h => by cases h⟩
  · exact .run c cs fun run rest all _ =>
      ⟨by simp [Kind.Spells, isWord, start, all], fun h => by cases h⟩
  · exact cutNumber_lexical cs digit
  · exact quote ▸ cutQuoted_lexical cs
  · exact plus ▸ cutPlus_lexical cs
  · exact .symbol cs symbol
  · exact .inl rfl

end

theorem Kind.Spells.length_pos {kind : Kind} {text : List Char} (spells : kind.Spells text) :
    0 < text.length := by
  cases text with
  | cons c cs => simp
  | nil =>
      cases kind with
      | name | word | number | symbol => cases spells
      | quoted =>
          obtain ⟨inside, -, none⟩ := spells
          cases none
      | flag =>
          obtain ⟨flag, none⟩ := spells
          cases none

/-! ## Only what is laid out is read -/

section

variable {progress : Progress} {p : Position} {attached : Bool} {c : Char} {cs : List Char}
  {tokens : Tokens}

/-- Reading on from what is no gap takes up a lexeme, which leaves less to read. -/
theorem readFrom_cons_ok (notBlank : isBlank c = false) (notHash : c ≠ '#')
    (done : readFrom progress p attached (c :: cs) = .ok tokens) :
    ∃ kind text rest next, text ++ rest = c :: cs ∧ rest.length < (c :: cs).length ∧
      Lexes kind text rest ∧ progress.take ⟨kind, text, p, attached⟩ = .ok next ∧
      readFrom next (p.afterText text) true rest = .ok tokens := by
  rcases cut_lexical c cs notBlank notHash with stray | ⟨kind, text, rest, piece, whole, lexes⟩
  · rw [readFrom, lexFrom] at done
    simp only [stray] at done
    cases done
  · have cuts : CutsOff (.lexeme kind) text rest := ⟨c, cs, whole, piece⟩
    have less : rest.length < (c :: cs).length := by
      have some := lexes.spells.length_pos
      rw [← whole, List.length_append]
      omega
    rw [← whole] at done
    cases taken : progress.take ⟨kind, text, p, attached⟩ with
    | error e =>
        rw [readFrom_fails cuts taken] at done
        cases done
    | ok next =>
        rw [readFrom_lexeme cuts taken] at done
        exact ⟨kind, text, rest, next, whole, less, lexes, taken, done⟩

/-- What starts a token is the stem of an entry. -/
theorem started_ok {kind : Kind} {text : List Char} {t : Token} {accepts : Bool}
    (spells : kind.Spells text)
    (starts : Progress.started ⟨kind, text, p, attached⟩ = .ok (t, accepts)) :
    ∃ stem : Stem, stem.Fits ∧ stem.text = text ∧ stem.acceptsValue = accepts ∧
      (stem.takesFlags = false → kind = .symbol) := by
  have named : ∀ {tag : Tag}, Tag.ofName? (String.ofList text) = some tag →
      tag.name.toList = text := by
    intro tag found
    rw [Tag.name_of_ofName? found, String.toList_ofList]
  cases kind with
  | name =>
      cases found : Tag.ofName? (String.ofList text) with
      | none => simp [Progress.started, found] at starts
      | some tag =>
          simp only [Progress.started, found, Except.ok.injEq, Prod.mk.injEq] at starts
          refine ⟨.named tag, trivial, named found, starts.2, fun symbolic => ?_⟩
          -- a name begins with a capital, and no symbol does
          cases text with
          | nil => cases spells
          | cons c cs =>
              have upper : c.isUpper = true := (Bool.and_eq_true_iff.1 spells).1
              simp [Stem.takesFlags, Tag.isSymbolic, named found, upper] at symbolic
  | symbol =>
      cases found : Tag.ofName? (String.ofList text) with
      | none => simp [Progress.started, found] at starts
      | some tag =>
          simp only [Progress.started, found, Except.ok.injEq, Prod.mk.injEq] at starts
          exact ⟨.named tag, trivial, named found, starts.2, fun _ => rfl⟩
  | word =>
      cases starts
      exact ⟨.word text, spells, rfl, rfl, fun h => by cases h⟩
  | number =>
      cases starts
      exact ⟨.number text, spells, rfl, rfl, fun h => by cases h⟩
  | quoted =>
      obtain ⟨inside, complete, rfl⟩ := spells
      cases starts
      exact ⟨.quoted inside, complete, rfl, rfl, fun h => by cases h⟩
  | flag => cases starts

/-- The text goes on with the entry, and entries are laid out behind it. -/
def Continues (entry : Entry) (text : List Char) : Prop :=
  ∃ (whole : Entry) (rest : List Char) (entries : List Entry), whole.Fits ∧
    whole.text ++ rest = entry.text ++ text ∧ LaidOut true entries rest

/-- If the text can be read, right behind no lexeme, then it is laid out. -/
def SoundApart (text : List Char) : Prop :=
  ∀ progress p tokens, readFrom progress p false text = .ok tokens →
    ∃ entries, LaidOut false entries text

/-- If the text can be read, right behind an entry, then it continues the entry.  A symbol that is
all of the entry went as far as it could. -/
def SoundBehind (text : List Char) : Prop :=
  ∀ (entry : Entry) t earlier p tokens, entry.Fits →
    (entry.stem.takesFlags = false → Ends isSymbolChar text) →
    readFrom ⟨t :: earlier, entry.stem.acceptsValue && entry.flags.isEmpty⟩ p true text =
      .ok tokens →
    Continues entry text

theorem LaidOut.blank {behind parted : Bool} {entries : List Entry} (blank : isBlank c = true)
    (laid : LaidOut parted entries cs) : LaidOut behind entries (c :: cs) := by
  cases laid with
  | nil gap => exact .nil (.blank blank gap)
  | cons gap _ fits later =>
      exact .cons (.blank blank gap) (fun _ => List.cons_ne_nil _ _) fits later

theorem LaidOut.comment {behind parted : Bool} {entries : List Entry} {body : List Char}
    (line : '\n' ∉ body) (laid : LaidOut parted entries cs) :
    LaidOut behind entries ('#' :: (body ++ '\n' :: cs)) := by
  cases laid with
  | nil gap => exact .nil (.comment line gap)
  | @cons _ gap text entry _ isGap _ fits later =>
      have split : '#' :: (body ++ '\n' :: (gap ++ (entry.text ++ text))) =
          '#' :: (body ++ '\n' :: gap) ++ (entry.text ++ text) := by simp
      rw [split]
      exact .cons (.comment line isGap) (fun _ => List.cons_ne_nil _ _) fits later

/-- A text that begins with a gap is laid out if what is behind the gap is. -/
theorem laidOut_gap (shorter : ∀ rest, rest.length < (c :: cs).length → SoundApart rest)
    (gap : isBlank c = true ∨ c = '#') (done : readFrom progress p attached (c :: cs) = .ok tokens)
    (behind : Bool) : ∃ entries, LaidOut behind entries (c :: cs) := by
  rcases gap with blank | rfl
  · rw [readFrom_blank blank] at done
    obtain ⟨entries, laid⟩ := shorter cs (by simp) _ _ _ done
    exact ⟨entries, laid.blank blank⟩
  · by_cases feed : '\n' ∈ cs
    · obtain ⟨body, rest, rfl, line⟩ := List.eq_append_cons_of_mem feed
      rw [readFrom_comment line] at done
      obtain ⟨entries, laid⟩ := shorter rest (by simp; omega) _ _ _ done
      exact ⟨entries, laid.comment line⟩
    · exact ⟨[], .nil (.rest rfl feed)⟩

theorem soundApart_step {text : List Char}
    (shorter : ∀ rest, rest.length < text.length → SoundApart rest ∧ SoundBehind rest) :
    SoundApart text := by
  intro progress p tokens done
  cases text with
  | nil => exact ⟨[], .nil .nil⟩
  | cons c cs =>
      by_cases gap : isBlank c = true ∨ c = '#'
      · exact laidOut_gap (fun rest less => (shorter rest less).1) gap done false
      · simp only [not_or, Bool.not_eq_true] at gap
        obtain ⟨kind, text, rest, next, whole, less, lexes, taken, onward⟩ :=
          readFrom_cons_ok gap.1 gap.2 done
        rw [take_detached] at taken
        cases starts : Progress.started ⟨kind, text, p, false⟩ with
        | error e => simp [starts, Except.map] at taken
        | ok started =>
            obtain ⟨t, accepts⟩ := started
            simp only [starts, Except.map, Except.ok.injEq] at taken
            subst taken
            obtain ⟨stem, fits, rfl, rfl, symbolic⟩ := started_ok lexes.spells starts
            obtain ⟨entry, rest', entries, fits', same, laid⟩ := (shorter rest less).2 ⟨stem, []⟩ t
              progress.tokens _ tokens ⟨fits, fun _ => rfl⟩ (fun h => lexes.ends (symbolic h))
              (by simpa using onward)
            refine ⟨entry :: entries, ?_⟩
            have text : c :: cs = [] ++ (entry.text ++ rest') := by
              rw [same, ← whole]
              simp [Entry.text]
            rw [text]
            exact .cons .nil (fun h => by cases h) fits' laid

/-- A lexeme that is taken up right behind an entry makes a longer entry of it. -/
theorem Entry.grow {entry : Entry} {kind : Kind} {text rest : List Char} {t : Token}
    {earlier : Tokens} {next : Progress} (fits : entry.Fits)
    (symbol : entry.stem.takesFlags = false → Ends isSymbolChar (text ++ rest))
    (spells : kind.Spells text)
    (taken : Progress.take ⟨t :: earlier, entry.stem.acceptsValue && entry.flags.isEmpty⟩
      ⟨kind, text, p, true⟩ = .ok next) :
    ∃ (longer : Entry) (u : Token), longer.Fits ∧ longer.stem.takesFlags = true ∧
      longer.text = entry.text ++ text ∧
      next = ⟨u :: earlier, longer.stem.acceptsValue && longer.flags.isEmpty⟩ := by
  obtain ⟨stem, flags⟩ := entry
  simp only [Progress.take] at taken
  split_ifs at taken with isFlag isValue
  · subst isFlag
    obtain ⟨flag, rfl⟩ := spells
    cases taken
    have takesFlags : stem.takesFlags = true := by
      by_contra none
      have plus := symbol (by simpa using none)
      rw [Flag.text, List.cons_append, ends_cons] at plus
      cases plus
    exact ⟨⟨stem, flags ++ [flag]⟩, Progress.flagged flag.text t,
      ⟨fits.1, by simp [takesFlags]⟩, takesFlags, by simp [Entry.text], by simp⟩
  · obtain ⟨rfl, accepts⟩ := isValue
    obtain ⟨inside, complete, rfl⟩ := spells
    cases taken
    obtain ⟨accepts, none⟩ := Bool.and_eq_true_iff.1 accepts
    cases stem with
    | named tag =>
        have noFlags : flags = [] := by simpa using none
        subst noFlags
        exact ⟨⟨.valued tag inside, []⟩, _, ⟨complete, fun h => by cases h⟩, rfl,
          by simp [Entry.text, Stem.text], rfl⟩
    | valued | word | number | quoted => cases accepts

theorem soundBehind_step {text : List Char}
    (shorter : ∀ rest, rest.length < text.length → SoundApart rest ∧ SoundBehind rest) :
    SoundBehind text := by
  intro entry t earlier p tokens fits symbol done
  cases text with
  | nil => exact ⟨entry, [], [], fits, rfl, .nil .nil⟩
  | cons c cs =>
      by_cases gap : isBlank c = true ∨ c = '#'
      · obtain ⟨entries, laid⟩ := laidOut_gap (fun rest less => (shorter rest less).1) gap done true
        exact ⟨entry, _, entries, fits, rfl, laid⟩
      · simp only [not_or, Bool.not_eq_true] at gap
        obtain ⟨kind, text, rest, next, whole, less, lexes, taken, onward⟩ :=
          readFrom_cons_ok gap.1 gap.2 done
        rw [← whole] at symbol ⊢
        -- the rest continues the longer entry, and so the whole continues the entry
        obtain ⟨longer, u, fits', takesFlags, grown, rfl⟩ := Entry.grow fits symbol lexes.spells taken
        obtain ⟨last, rest', entries, fitsLast, same, laid⟩ :=
          (shorter rest less).2 longer u earlier _ tokens fits' (by simp [takesFlags]) onward
        refine ⟨last, rest', entries, fitsLast, ?_, laid⟩
        rw [same, grown, List.append_assoc]

theorem sound (text : List Char) : SoundApart text ∧ SoundBehind text := by
  induction length : text.length using Nat.strong_induction_on generalizing text with
  | _ n ih =>
      have shorter : ∀ rest : List Char, rest.length < text.length →
          SoundApart rest ∧ SoundBehind rest := fun rest less => ih _ (length ▸ less) rest rfl
      exact ⟨soundApart_step shorter, soundBehind_step shorter⟩

end

/-- **The reader accepts exactly its grammar.**  A text is read just if it is laid out as entries
with gaps between them, and then each entry gives one token. -/
theorem read_ok_iff_laidOut (text : String) :
    ((∃ tokens, read text = .ok tokens) ↔ ∃ entries, LaidOut false entries text.toList) ∧
      ∀ entries, LaidOut false entries text.toList →
        ∃ tokens, read text = .ok tokens ∧ Forall₂ Entry.Denotes entries tokens := by
  have complete : ∀ entries, LaidOut false entries text.toList →
      ∃ tokens, read text = .ok tokens ∧ Forall₂ Entry.Denotes entries tokens := by
    intro entries laid
    obtain ⟨tokens, done, denotes⟩ := laid.readFrom .empty Position.zero
    exact ⟨tokens, done, denotes⟩
  refine ⟨⟨?_, ?_⟩, complete⟩
  · rintro ⟨tokens, done⟩
    exact (sound text.toList).1 _ _ _ done
  · rintro ⟨entries, laid⟩
    obtain ⟨tokens, done, -⟩ := complete entries laid
    exact ⟨tokens, done⟩

theorem read_ok_iff_laidOut_commented :
    let entries : List Entry := [⟨.named .arrow, []⟩, ⟨.word ['x'], [.generated, .fromThen]⟩]
    LaidOut false entries "-># to\n x+gen+then".toList ∧
      ∃ tokens, read "-># to\n x+gen+then" = .ok tokens ∧
        Forall₂ Entry.Denotes entries tokens := by
  intro entries
  have body : '\n' ∉ [' ', 't', 'o'] := by decide
  have last : LaidOut true [] [] := .nil .nil
  have second : LaidOut true [⟨.word ['x'], [.generated, .fromThen]⟩] "# to\n x+gen+then".toList :=
    .cons (.comment body (.blank rfl .nil)) (by simp) ⟨rfl, fun h => by cases h⟩ last
  have laid : LaidOut false entries "-># to\n x+gen+then".toList :=
    .cons .nil (fun h => by cases h) ⟨trivial, fun _ => rfl⟩ second
  exact ⟨laid, (read_ok_iff_laidOut "-># to\n x+gen+then").2 entries laid⟩

end TokenLayout.Notation
