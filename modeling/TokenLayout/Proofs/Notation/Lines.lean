/-
# TokenLayout.Proofs.Notation.Lines -- notation is read line by line

No lexeme goes on behind a line feed, and of what was read before a gap the reader uses
nothing behind it.  So a text is read as its lines are: the first one that fails decides,
and otherwise the tokens of all follow one another.  Main statement `read_append_line`.

It is put together from three facts.  In front of a line feed a lexeme is cut off as it is
at the end of a text (`cut_line`).  Behind a gap the tokens read so far are only kept
(`readFrom_fresh`).  And a text that stands some lines further down is read as the same
tokens, or fails with the same error, that many lines further down (`readFrom_down`).
-/
import TokenLayout.Proofs.Notation.Grammar

namespace TokenLayout

set_option autoImplicit false

/-! ## Further down -/

/-- The same column some lines further down. -/
def Position.down (p : Position) (lines : Nat) : Position :=
  ⟨p.line + lines, p.column⟩

def Location.down (l : Location) (lines : Nat) : Location :=
  ⟨l.start.down lines, l.stop.down lines⟩

/-- The token as read from a text some lines further down. -/
def Token.down (t : Token) (lines : Nat) : Token :=
  { t with location := t.location.map fun l => l.down lines }

namespace Notation

/-- The error of a text some lines further down. -/
def ReadError.down : ReadError → Nat → ReadError
  | unexpectedText text p, lines => unexpectedText text (p.down lines)
  | unknownTag name p, lines => unknownTag name (p.down lines)
  | missingSeparator text p, lines => missingSeparator text (p.down lines)
  | danglingSuffix text p, lines => danglingSuffix text (p.down lines)

def Lexeme.down (l : Lexeme) (lines : Nat) : Lexeme :=
  { l with start := l.start.down lines }

def Lexed.down (lexed : Lexed) (lines : Nat) : Lexed :=
  ⟨lexed.lexemes.map fun l => l.down lines,
    lexed.stray.map fun stray => { stray with position := stray.position.down lines }⟩

def Progress.down (progress : Progress) (lines : Nat) : Progress :=
  ⟨progress.tokens.map fun t => t.down lines, progress.acceptsValue⟩

/-- What was read, or the error, some lines further down. -/
def lowered {α : Type} (lower : α → α) (lines : Nat) (x : Except ReadError α) :
    Except ReadError α :=
  (x.map lower).mapError fun e => e.down lines

section

variable (lines : Nat)

theorem after_down (p : Position) (c : Char) : (p.down lines).after c = (p.after c).down lines := by
  unfold Position.after
  split
  · simp only [Position.down, Nat.add_right_comm]
  · rfl

theorem afterText_down (p : Position) (text : List Char) :
    (p.down lines).afterText text = (p.afterText text).down lines := by
  induction text generalizing p with
  | nil => rfl
  | cons c text ih =>
      have onward := ih (p.after c)
      simp only [Position.afterText, List.foldl_cons, after_down] at onward ⊢
      exact onward

/-- A text is split into the same lexemes wherever it stands. -/
theorem lexFrom_down (p : Position) (attached : Bool) (text : List Char) :
    lexFrom (p.down lines) attached text = (lexFrom p attached text).down lines := by
  fun_induction lexFrom p attached text with
  | case1 => simp [lexFrom, Lexed.down]
  | case2 p attached c cs piece next gap ih =>
      have found : (cut c cs).found = .gap := gap
      rw [lexFrom, afterText_down]
      simp only [found]
      exact ih
  | case3 p attached c cs piece next kind lexeme later ih =>
      have found : (cut c cs).found = .lexeme kind := lexeme
      rw [lexFrom, afterText_down]
      simp only [found]
      exact congrArg (fun later : Lexed => (⟨⟨kind, piece.text, p.down lines, attached⟩ ::
        later.lexemes, later.stray⟩ : Lexed)) ih
  | case4 p attached c cs piece stray =>
      have found : (cut c cs).found = .stray := stray
      rw [lexFrom]
      simp only [found]
      rfl

theorem started_down (l : Lexeme) :
    Progress.started (l.down lines) =
      lowered (fun start => (start.1.down lines, start.2)) lines (Progress.started l) := by
  obtain ⟨kind, text, p, attached⟩ := l
  cases kind with
  | name | symbol =>
      simp only [Progress.started, Lexeme.down]
      cases Tag.ofName? (String.ofList text) <;> rfl
  | word | number | quoted | flag => rfl

theorem take_down (progress : Progress) (l : Lexeme) :
    (progress.down lines).take (l.down lines) =
      lowered (fun next => next.down lines) lines (progress.take l) := by
  have starts : ∀ tokens : Tokens,
      ((Progress.started (l.down lines)).map fun start =>
        (⟨start.1 :: tokens.map fun t => t.down lines, start.2⟩ : Progress)) =
      lowered (fun next => next.down lines) lines
        ((Progress.started l).map fun start => ⟨start.1 :: tokens, start.2⟩) := by
    intro tokens
    rw [started_down]
    cases Progress.started l <;> rfl
  obtain ⟨tokens, accepts⟩ := progress
  obtain ⟨kind, text, p, attached⟩ := l
  cases attached with
  | false => exact starts tokens
  | true =>
      cases tokens with
      | nil => exact starts []
      | cons t earlier =>
          simp only [Progress.take, Progress.down, Lexeme.down, List.map_cons]
          split
          · -- a flagged token has lost its location, so it does not matter where it stood
            unfold Progress.flagged
            split
            · rfl
            · split <;> rfl
          · split
            · simp [lowered, Except.map, Except.mapError, Progress.valued,
                Token.down, Location.down, Lexeme.stop, Position.down, Function.comp_def]
            · rfl

theorem resume_down (progress : Progress) (lexed : Lexed) :
    resume (progress.down lines) (lexed.down lines) =
      lowered (List.map fun t => t.down lines) lines (resume progress lexed) := by
  obtain ⟨lexemes, stray⟩ := lexed
  induction lexemes generalizing progress with
  | nil =>
      cases stray with
      | none =>
          show Except.ok _ = Except.ok _
          rw [Progress.down, List.map_reverse]
      | some stray => rfl
  | cons l lexemes ih =>
      have step : Lexed.down ⟨l :: lexemes, stray⟩ lines =
          ⟨l.down lines :: (Lexed.down ⟨lexemes, stray⟩ lines).lexemes,
            (Lexed.down ⟨lexemes, stray⟩ lines).stray⟩ := rfl
      rw [step, resume_cons, resume_cons, take_down]
      cases progress.take l with
      | error e => rfl
      | ok next => exact ih next

/-- **Further down a text reads the same.** -/
theorem readFrom_down (progress : Progress) (p : Position) (attached : Bool) (text : List Char) :
    readFrom (progress.down lines) (p.down lines) attached text =
      lowered (List.map fun t => t.down lines) lines (readFrom progress p attached text) := by
  rw [readFrom, lexFrom_down, resume_down, readFrom]

end

/-! ## Behind a gap -/

/-- Progress after other tokens. -/
def Progress.behind (progress : Progress) (front : Tokens) : Progress :=
  ⟨progress.tokens ++ front, progress.acceptsValue⟩

/-- What is taken up changes no token but the last, so those before it are only kept. -/
theorem take_behind {progress : Progress} {l : Lexeme}
    (some : l.attached = true → progress.tokens ≠ []) (front : Tokens) :
    (progress.behind front).take l = (progress.take l).map fun next => next.behind front := by
  obtain ⟨tokens, accepts⟩ := progress
  obtain ⟨kind, text, p, attached⟩ := l
  cases attached with
  | false =>
      rw [take_detached, take_detached]
      cases Progress.started ⟨kind, text, p, false⟩ <;> rfl
  | true =>
      cases tokens with
      | nil => exact absurd rfl (some rfl)
      | cons t earlier =>
          simp only [Progress.take]
          rw [apply_ite (Except.map _), apply_ite (Except.map _)]
          rfl

theorem ne_nil_of_take {progress next : Progress} {l : Lexeme}
    (taken : progress.take l = .ok next) : next.tokens ≠ [] := by
  unfold Progress.take at taken
  split at taken
  · split at taken
    · obtain rfl := Except.ok.inj taken
      exact List.cons_ne_nil _ _
    · split at taken
      · obtain rfl := Except.ok.inj taken
        exact List.cons_ne_nil _ _
      · cases taken
  · cases starts : Progress.started l with
    | error e =>
        rw [starts] at taken
        cases taken
    | ok start =>
        rw [starts] at taken
        obtain rfl := Except.ok.inj taken
        exact List.cons_ne_nil _ _

theorem resume_behind {progress : Progress} {lexemes : List Lexeme} (stray : Option Stray)
    (some : ∀ l ∈ lexemes.head?, l.attached = true → progress.tokens ≠ []) (front : Tokens) :
    resume (progress.behind front) ⟨lexemes, stray⟩ =
      (resume progress ⟨lexemes, stray⟩).map fun tokens => front.reverse ++ tokens := by
  induction lexemes generalizing progress with
  | nil =>
      cases stray with
      | none =>
          show Except.ok _ = Except.ok _
          rw [Progress.behind, List.reverse_append]
      | some stray => rfl
  | cons l lexemes ih =>
      rw [resume_cons, resume_cons, take_behind (some l rfl)]
      cases taken : progress.take l with
      | error e => rfl
      | ok next => exact ih fun _ _ _ => ne_nil_of_take taken

/-- Behind a gap the first lexeme is attached to nothing. -/
theorem detached_of_lexFrom (p : Position) {attached : Bool} (text : List Char)
    (gap : attached = false) :
    ∀ l ∈ (lexFrom p attached text).lexemes.head?, l.attached = false := by
  fun_induction lexFrom p attached text with
  | case1 =>
      intro l first
      cases first
  | case2 p attached c cs piece next isGap ih => exact ih rfl
  | case3 p attached c cs piece next kind lexeme later ih =>
      intro l first
      obtain rfl := Option.some.inj first
      exact gap
  | case4 =>
      intro l first
      cases first

/-- **Behind a gap reading starts afresh**, and the tokens read so far come first. -/
theorem readFrom_fresh (progress : Progress) (p : Position) (text : List Char) :
    readFrom progress p false text =
      (readFrom .empty p false text).map fun tokens => progress.tokens.reverse ++ tokens := by
  have detached := detached_of_lexFrom p text (rfl : false = false)
  unfold readFrom
  revert detached
  generalize lexFrom p false text = lexed
  obtain ⟨lexemes, stray⟩ := lexed
  intro detached
  have never : ∀ l ∈ lexemes.head?, l.attached = true → Progress.empty.tokens ≠ [] := by
    intro l first attached
    rw [detached l first] at attached
    cases attached
  rw [← resume_behind stray never]
  -- no value can come next, so it does not matter whether one would be accepted
  cases lexemes with
  | nil => rfl
  | cons l lexemes =>
      have parted : l.attached = false := detached l rfl
      obtain ⟨kind, text, start, attached⟩ := l
      subst parted
      rw [resume_cons, resume_cons, take_detached, take_detached]
      rfl

/-! ## In front of a line feed -/

/-- The piece in front of more text. -/
def Cut.before (piece : Cut) (more : List Char) : Cut :=
  { piece with rest := piece.rest ++ more }

section

variable (cs more : List Char)

/-- A run of anything but line feeds ends in front of one. -/
theorem run_line {p : Char → Bool} (stops : p '\n' = false) :
    (cs ++ '\n' :: more).takeWhile p = cs.takeWhile p ∧
      (cs ++ '\n' :: more).dropWhile p = cs.dropWhile p ++ '\n' :: more := by
  induction cs with
  | nil => simp [stops]
  | cons c cs ih => cases holds : p c <;> simp [holds, ih]

theorem cutRun_line {p : Char → Bool} (stops : p '\n' = false) (found : Found) (c : Char) :
    cutRun found p c (cs ++ '\n' :: more) = (cutRun found p c cs).before ('\n' :: more) := by
  obtain ⟨taken, dropped⟩ := run_line cs more stops
  rw [cutRun, taken, dropped]
  rfl

theorem cutNumber_line (c : Char) :
    cutNumber c (cs ++ '\n' :: more) = (cutNumber c cs).before ('\n' :: more) := by
  obtain ⟨taken, dropped⟩ := run_line cs more (p := Char.isDigit) rfl
  rw [cutNumber, taken, dropped, cutNumber]
  -- what ends the digits is a point with a digit, a point without, or something else
  rcases cs.dropWhile Char.isDigit with - | ⟨point, - | ⟨d, rest⟩⟩
  · rfl
  · by_cases isPoint : point = '.'
    · subst isPoint
      rfl
    · simp [isPoint, Cut.before]
  · by_cases isPoint : point = '.'
    · subst isPoint
      obtain ⟨taken', dropped'⟩ := run_line rest more (p := Char.isDigit) rfl
      simp only [List.cons_append, taken', dropped']
      split <;> rfl
    · simp [isPoint, Cut.before]

theorem items_line :
    items (cs ++ '\n' :: more) = ((items cs).1, (items cs).2 ++ '\n' :: more) := by
  fun_induction items cs with
  | case1 => simp [items]
  | case2 c cs sameLine ih => simp [items, sameLine, ih]
  | case3 c cs notEscape ends =>
      rcases ends with rfl | rfl | rfl
      · simp [items]
      · -- a backslash that ends the text takes no line feed either
        cases cs with
        | nil => simp [items]
        | cons d cs => exact absurd rfl (notEscape d cs rfl)
      · simp [items]
  | case4 c cs notEscape plain ih =>
      rw [List.cons_append, items]
      · rw [if_neg plain, ih]
      · intro d ds same
        exact absurd same (not_or.1 (not_or.1 plain).2).1
  | case5 => simp [items]

theorem cutQuoted_line :
    cutQuoted (cs ++ '\n' :: more) = (cutQuoted cs).before ('\n' :: more) := by
  rw [cutQuoted, items_line, cutQuoted]
  obtain ⟨inner, rest⟩ := items cs
  cases rest with
  | nil => rfl
  | cons c rest =>
      by_cases quote : c = '"'
      · subst quote
        rfl
      · simp [quote, Cut.before]

/-- A word without line feeds begins in front of one or not at all. -/
theorem isPrefixOf_line {w : List Char} (line : '\n' ∉ w) :
    w.isPrefixOf (cs ++ '\n' :: more) = w.isPrefixOf cs := by
  induction w generalizing cs with
  | nil => simp
  | cons d w ih =>
      obtain ⟨notFeed, later⟩ : d ≠ '\n' ∧ '\n' ∉ w := by
        simpa [eq_comm] using line
      cases cs with
      | nil => simp [List.isPrefixOf_cons_cons, notFeed]
      | cons c cs =>
          rw [List.cons_append, List.isPrefixOf_cons_cons, List.isPrefixOf_cons_cons, ih cs later]

theorem cutPlus_line : cutPlus (cs ++ '\n' :: more) = (cutPlus cs).before ('\n' :: more) := by
  have found : flagWords.find? (fun w => w.isPrefixOf (cs ++ '\n' :: more)) =
      flagWords.find? fun w => w.isPrefixOf cs := by
    -- no flag has a line feed in it
    have gen := isPrefixOf_line cs more (w := "gen".toList) (by decide)
    have explicit := isPrefixOf_line cs more (w := "explicit".toList) (by decide)
    have fromThen := isPrefixOf_line cs more (w := "then".toList) (by decide)
    simp only [flagWords, List.find?_cons, List.find?_nil, gen, explicit, fromThen]
  rw [cutPlus, found, cutPlus]
  cases first : flagWords.find? fun w => w.isPrefixOf cs with
  | none => exact cutRun_line cs more rfl _ _
  | some w =>
      have isFront : w.isPrefixOf cs = true := by simpa using List.find?_some first
      obtain ⟨rest, rfl⟩ := List.isPrefixOf_iff_prefix.1 isFront
      simp [Cut.before]

/-- In front of a line feed a text is cut up as at its end.  Only blanks go on behind it. -/
theorem cut_line {c : Char} (notBlank : isBlank c = false) :
    cut c (cs ++ '\n' :: more) = (cut c cs).before ('\n' :: more) := by
  simp only [cut, notBlank, Bool.false_eq_true, if_false]
  rw [cutRun_line cs more (p := (· != '\n')) rfl, cutRun_line cs more (p := isNameChar) rfl,
    cutRun_line cs more (p := isWordChar) rfl, cutRun_line cs more (p := isSymbolChar) rfl,
    cutNumber_line, cutQuoted_line, cutPlus_line]
  simp only [apply_ite (Cut.before · ('\n' :: more))]
  rfl

end

/-! ## Line by line -/

/-- A piece is cut off with nothing lost. -/
theorem cut_parts (c : Char) (cs : List Char) : (cut c cs).text ++ (cut c cs).rest = c :: cs := by
  have run : ∀ found p, (cutRun found p c cs).text ++ (cutRun found p c cs).rest = c :: cs := by
    simp [cutRun]
  unfold cut
  split_ifs with blank hash upper start digit quote plus symbol
  · exact run _ _
  · exact run _ _
  · exact run _ _
  · exact run _ _
  · rcases exists_digits cs with ⟨whole, rest, rfl, all, ends, noFraction⟩ |
      ⟨whole, d, fraction, rest, rfl, all, digit', all', ends⟩
    · rw [cutNumber_whole all ends noFraction]
      rfl
    · simp [cutNumber_fraction all digit' all' ends]
  · subst quote
    have whole := (items_spec cs).1
    unfold cutQuoted
    split
    · rename_i closed
      rw [closed] at whole
      simp [← whole]
    · rename_i unclosed
      rw [unclosed] at whole
      simp [← whole]
  · subst plus
    unfold cutPlus
    split
    · rename_i word found
      have isFront : word.isPrefixOf cs = true := by simpa using List.find?_some found
      simp [List.prefix_iff_eq_append.1 (List.isPrefixOf_iff_prefix.1 isFront)]
    · exact run _ _
  · exact run _ _
  · rfl

/-- Reading goes piece by piece. -/
theorem readFrom_cons (progress : Progress) (p : Position) (attached : Bool) (c : Char)
    (cs : List Char) :
    readFrom progress p attached (c :: cs) =
      match (cut c cs).found with
      | .gap => readFrom progress (p.afterText (cut c cs).text) false (cut c cs).rest
      | .lexeme kind =>
          (progress.take ⟨kind, (cut c cs).text, p, attached⟩).bind fun next =>
            readFrom next (p.afterText (cut c cs).text) true (cut c cs).rest
      | .stray => .error (.unexpectedText (String.ofList (cut c cs).text) p) := by
  rw [readFrom, lexFrom]
  cases found : (cut c cs).found with
  | gap => rfl
  | lexeme kind => exact resume_cons _ _ _
  | stray => rfl

/-- What stands in front of a line feed is read, and then what stands behind it. -/
theorem readFrom_line (progress : Progress) (p : Position) (attached : Bool)
    (text more : List Char) :
    readFrom progress p attached (text ++ '\n' :: more) =
      (readFrom progress p attached text).bind fun front =>
        (readFrom .empty ((p.afterText text).after '\n') false more).map fun back =>
          front ++ back := by
  induction size : text.length using Nat.strongRecOn generalizing text progress p attached with
  | ind size ih =>
      subst size
      cases text with
      | nil =>
          -- the line feed is a blank, so what is behind it is attached to nothing
          rw [List.nil_append, readFrom_blank rfl, readFrom_nil, readFrom_fresh]
          rfl
      | cons c cs =>
          cases blank : isBlank c with
          | true =>
              rw [List.cons_append, readFrom_blank blank, readFrom_blank blank]
              exact ih cs.length (by simp) _ _ _ cs rfl
          | false =>
              -- the same piece is cut off both texts, and leaves less to read
              have less : (cut c cs).rest.length < (c :: cs).length :=
                Nat.lt_succ_of_le (length_cut_rest_le c cs)
              have onward := fun progress attached =>
                ih _ less progress (p.afterText (cut c cs).text) attached (cut c cs).rest rfl
              simp only [← afterText_append] at onward
              rw [List.cons_append, readFrom_cons, readFrom_cons, cut_line cs more blank]
              simp only [Cut.before]
              cases found : (cut c cs).found with
              | gap =>
                  rw [cut_parts] at onward
                  exact onward progress false
              | lexeme kind =>
                  rw [cut_parts] at onward
                  dsimp only
                  cases progress.take ⟨kind, (cut c cs).text, p, attached⟩ with
                  | error e => rfl
                  | ok next => exact onward next true
              | stray => rfl

theorem line_afterText (p : Position) (text : List Char) :
    (p.afterText text).line = p.line + text.count '\n' := by
  induction text generalizing p with
  | nil => rfl
  | cons c text ih =>
      have onward : (p.afterText (c :: text)).line = (p.after c).line + text.count '\n' :=
        ih (p.after c)
      rw [onward, List.count_cons]
      by_cases feed : c = '\n'
      · simp only [Position.after, feed, if_true, beq_self_eq_true]
        omega
      · simp [Position.after, feed]

/-- **Notation is read line by line.**  Of two texts with a line feed between them the first one is
read, and then the second one as it would be on its own, further down by the lines before it. -/
theorem read_append_line (a b : String) :
    read (a ++ "\n" ++ b) =
      match read a, read b with
      | .error e, _ => .error e
      | .ok _, .error e => .error (e.down (1 + a.toList.count '\n'))
      | .ok front, .ok back =>
          .ok (front ++ back.map fun t => t.down (1 + a.toList.count '\n')) := by
  have whole : (a ++ "\n" ++ b).toList = a.toList ++ '\n' :: b.toList := by
    simp [String.toList_append]
  have start : (Position.zero.afterText a.toList).after '\n' =
      Position.zero.down (1 + a.toList.count '\n') := by
    rw [Position.after, if_pos rfl, line_afterText]
    simp only [Position.down, Position.zero]
    congr 1
    omega
  have behind : readFrom .empty (Position.zero.down (1 + a.toList.count '\n')) false b.toList = _ :=
    readFrom_down (1 + a.toList.count '\n') .empty Position.zero false b.toList
  rw [read_eq_readFrom, read_eq_readFrom, read_eq_readFrom, whole, readFrom_line, start, behind]
  cases readFrom .empty Position.zero false a.toList with
  | error e => rfl
  | ok front => cases readFrom .empty Position.zero false b.toList <;> rfl

end Notation

end TokenLayout
