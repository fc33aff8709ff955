/-
# TokenLayout.Proofs.Balance -- what the balance check decides, and whom it blames

A stream is well nested when four rules derive it: it is empty, or one token that is no
member of a pair, or a well nested stream between an opener and its own closer, or one well
nested stream behind another (`WellNested`).

The check passes over tokens as long as every closer answers the opener pending last
(`Answers`), and that is just as long as something can still follow that makes the stream
well nested (`canGoOn_iff`).  So a closer is blamed where nothing can follow any more
(`Misplaced`).  Where all closers answer, an opener is blamed that nothing closes, and it is
the first member of a pair without a partner (`LeftOpen`).  Main statement:
`ensureBalance_decides`.
-/
import TokenLayout.Proofs.Strays

namespace TokenLayout

set_option autoImplicit false

/-! ## Well nested streams -/

/-- Each opener is closed by its own closer, innermost first. -/
inductive WellNested : Tokens → Prop where
  | nil : WellNested []
  | alone {t : Token} (alone : t.Alone) : WellNested [t]
  | pair {o c : Token} {inside : Tokens} (partners : o.Partners c) (within : WellNested inside) :
      WellNested (o :: (inside ++ [c]))
  | append {front back : Tokens} (first : WellNested front) (second : WellNested back) :
      WellNested (front ++ back)

theorem Forest.Balanced.wellNested {forest : Forest Token} (balanced : forest.Balanced) :
    WellNested forest.flatten := by
  induction forest with
  | nil => exact .nil
  | leaf t next ih => exact (WellNested.alone balanced.1).append (ih balanced.2)
  | pair o inside c next ihInside ihNext =>
      obtain ⟨partners, inner, outer⟩ := balanced
      have both := (WellNested.pair partners (ihInside inner)).append (ihNext outer)
      simpa [flatten] using both

/-- The well nested streams are the balanced forests. -/
theorem wellNested_iff_forest {tokens : Tokens} :
    WellNested tokens ↔ ∃ forest : Forest Token, forest.Balanced ∧ forest.flatten = tokens := by
  constructor
  · intro nested
    induction nested with
    | nil => exact ⟨.nil, trivial, rfl⟩
    | @alone t alone => exact ⟨.leaf t .nil, ⟨alone, trivial⟩, rfl⟩
    | @pair o c inside partners _ ih =>
        obtain ⟨forest, balanced, rfl⟩ := ih
        exact ⟨.pair o forest c .nil, ⟨partners, balanced, trivial⟩, by simp⟩
    | append _ _ ihFirst ihSecond =>
        obtain ⟨forest, balanced, rfl⟩ := ihFirst
        obtain ⟨after, balanced', rfl⟩ := ihSecond
        exact ⟨forest.append after, Forest.nests_append balanced balanced',
          Forest.flatten_append forest after⟩
  · rintro ⟨forest, balanced, rfl⟩
    exact balanced.wellNested

theorem ensureBalance_eq_ok_iff {tokens : Tokens} :
    ensureBalance tokens = .ok () ↔ WellNested tokens := by
  rw [ensureBalance_iff_forest, wellNested_iff_forest]

/-! ## Closers that answer -/

/-- With these openers pending, innermost first, every closer of the stream is the partner of
the opener that is pending last before it. -/
def Answers : (opened tokens : Tokens) → Prop
  | _, [] => True
  | opened, t :: rest =>
      (t.tag.isCloser = true → ∃ o ∈ opened.head?, o.tag.partner? = some t.tag) ∧
        Answers (pend opened t) rest

section

variable {opened front rest tokens : Tokens}

theorem answers_append :
    Answers opened (front ++ rest) ↔
      Answers opened front ∧ Answers (front.foldl pend opened) rest := by
  induction front generalizing opened with
  | nil => simp [Answers]
  | cons t front ih => simp only [List.cons_append, Answers, List.foldl_cons, ih, and_assoc]

/-- The check passes over tokens whose closers answer. -/
theorem checkBalance_answers (answers : Answers opened front) (rest : Tokens) :
    checkBalance opened (front ++ rest) = checkBalance (front.foldl pend opened) rest := by
  induction front generalizing opened with
  | nil => rfl
  | cons t front ih =>
      obtain ⟨meets, later⟩ := answers
      rw [List.cons_append, List.foldl_cons, ← ih later]
      rcases t.opens_or_closes_or_alone with opens | closes | alone
      · simp only [checkBalance, if_pos opens, pend_opener opens]
      · obtain ⟨o, last, partner⟩ := meets closes
        obtain ⟨outer, rfl⟩ := List.head?_eq_some_iff.1 last
        simp [checkBalance, Tag.isOpener_of_isCloser closes, closes, partner, pend_closer closes]
      · rw [checkBalance_alone alone, pend_alone alone]

/-- The check fails at a closer that does not answer. -/
theorem checkBalance_unanswered {t : Token} (closes : t.tag.isCloser = true)
    (unanswered : ∀ o ∈ opened.head?, o.tag.partner? ≠ some t.tag) (rest : Tokens) :
    checkBalance opened (t :: rest) = .error (.ofUnbalanced t) := by
  cases opened with
  | nil => simp [checkBalance, closes, Tag.isOpener_of_isCloser closes]
  | cons o outer =>
      simp [checkBalance, closes, Tag.isOpener_of_isCloser closes, unanswered o rfl]

theorem answers_of_checkBalance (accepted : checkBalance opened tokens = .ok ()) :
    Answers opened tokens := by
  induction tokens generalizing opened with
  | nil => trivial
  | cons t rest ih =>
      obtain ⟨meets, onward⟩ := checkBalance_cons accepted
      refine ⟨fun closes => ?_, ih onward⟩
      obtain ⟨o, outer, rfl, partner⟩ := meets closes
      exact ⟨o, rfl, partner⟩

/-- Of closers that do not all answer there is a first one that does not. -/
theorem exists_unanswered (fails : ¬Answers opened tokens) :
    ∃ front t rest, tokens = front ++ t :: rest ∧ Answers opened front ∧ t.tag.isCloser = true ∧
      ∀ o ∈ (front.foldl pend opened).head?, o.tag.partner? ≠ some t.tag := by
  induction tokens generalizing opened with
  | nil => exact absurd trivial fails
  | cons t rest ih =>
      by_cases meets : t.tag.isCloser = true → ∃ o ∈ opened.head?, o.tag.partner? = some t.tag
      · obtain ⟨front, u, later, rfl, answers, closes, unanswered⟩ :=
          ih fun answers => fails ⟨meets, answers⟩
        exact ⟨t :: front, u, later, rfl, ⟨meets, answers⟩, closes, unanswered⟩
      · simp only [Classical.not_imp, not_exists, not_and] at meets
        exact ⟨[], t, rest, rfl, trivial, meets⟩

/-- Openers are all that is ever pending. -/
theorem isOpener_of_mem_pend (openers : ∀ o ∈ opened, o.tag.isOpener = true) :
    ∀ o ∈ tokens.foldl pend opened, o.tag.isOpener = true := by
  induction tokens generalizing opened with
  | nil => exact openers
  | cons t rest ih =>
      refine ih ?_
      rcases t.opens_or_closes_or_alone with opens | closes | alone
      · rw [pend_opener opens]
        simpa using ⟨opens, openers⟩
      · rw [pend_closer closes]
        exact fun o member => openers o (List.mem_of_mem_tail member)
      · rwa [pend_alone alone]

end

/-! ## What can still follow -/

/-- Something can follow these tokens that makes the stream well nested. -/
def CanGoOn (tokens : Tokens) : Prop :=
  ∃ more, WellNested (tokens ++ more)

theorem Tag.exists_partner? {t : Tag} (opens : t.isOpener = true) :
    ∃ c, t.partner? = some c ∧ c.isCloser = true := by
  cases t <;> first | exact ⟨_, rfl, rfl⟩ | cases opens

/-- Openers that are pending can be closed. -/
theorem exists_closers {opened : Tokens} (openers : ∀ o ∈ opened, o.tag.isOpener = true) :
    ∃ more, checkBalance opened more = .ok () := by
  induction opened with
  | nil => exact ⟨[], rfl⟩
  | cons o outer ih =>
      obtain ⟨more, closed⟩ := ih fun p member => openers p (.tail _ member)
      obtain ⟨c, partner, closes⟩ := Tag.exists_partner? (openers o (.head _))
      refine ⟨.bare c :: more, ?_⟩
      have tag : (Token.bare c).tag = c := rfl
      simpa [checkBalance, tag, closes, Tag.isOpener_of_isCloser closes, partner] using closed

/-- **A stream can go on just if all its closers answer.** -/
theorem canGoOn_iff {tokens : Tokens} : CanGoOn tokens ↔ Answers [] tokens := by
  constructor
  · rintro ⟨more, nested⟩
    exact (answers_append.1 (answers_of_checkBalance (ensureBalance_eq_ok_iff.2 nested))).1
  · intro answers
    have openers : ∀ o ∈ tokens.foldl pend [], o.tag.isOpener = true :=
      isOpener_of_mem_pend (by simp)
    obtain ⟨more, closed⟩ := exists_closers openers
    refine ⟨more, ensureBalance_eq_ok_iff.1 ?_⟩
    rw [ensureBalance, checkBalance_answers answers, closed]

/-- The first closer that cannot stand where it does: what is before it can go on, but not with
this closer. -/
structure Misplaced (front : Tokens) (t : Token) : Prop where
  closes : t.tag.isCloser = true
  before : CanGoOn front
  upTo : ¬CanGoOn (front ++ [t])

theorem misplaced_iff {front : Tokens} {t : Token} :
    Misplaced front t ↔ t.tag.isCloser = true ∧ Answers [] front ∧
      ∀ o ∈ (front.foldl pend []).head?, o.tag.partner? ≠ some t.tag := by
  constructor
  · rintro ⟨closes, before, upTo⟩
    rw [canGoOn_iff] at before upTo
    refine ⟨closes, before, fun o last partner => upTo ?_⟩
    exact answers_append.2 ⟨before, fun _ => ⟨o, last, partner⟩, trivial⟩
  · rintro ⟨closes, before, unanswered⟩
    refine ⟨closes, canGoOn_iff.2 before, fun upTo => ?_⟩
    obtain ⟨o, last, partner⟩ := (answers_append.1 (canGoOn_iff.1 upTo)).2.1 closes
    exact unanswered o last partner

theorem Misplaced.ensureBalance {front : Tokens} {t : Token} (misplaced : Misplaced front t)
    (rest : Tokens) : ensureBalance (front ++ t :: rest) = .error (.ofUnbalanced t) := by
  obtain ⟨closes, before, unanswered⟩ := misplaced_iff.1 misplaced
  rw [TokenLayout.ensureBalance, checkBalance_answers before,
    checkBalance_unanswered closes unanswered]

/-! ## Partners -/

/-- The token between these has its partner among them, behind it or before it, with a well
nested stream between the two. -/
def Paired (front : Tokens) (t : Token) (back : Tokens) : Prop :=
  (∃ inside c rest, back = inside ++ c :: rest ∧ WellNested inside ∧ t.Partners c) ∨
    ∃ earlier o inside, front = earlier ++ o :: inside ∧ WellNested inside ∧ o.Partners t

theorem Paired.widen {front back : Tokens} {t : Token} (paired : Paired front t back)
    (earlier later : Tokens) : Paired (earlier ++ front) t (back ++ later) := by
  rcases paired with ⟨inside, c, rest, rfl, nested, partners⟩ | ⟨more, o, inside, rfl, nested, partners⟩
  · exact .inl ⟨inside, c, rest ++ later, by simp, nested, partners⟩
  · exact .inr ⟨earlier ++ more, o, inside, by simp, nested, partners⟩

/-- In a balanced stream every member of a pair has its partner. -/
theorem Forest.Balanced.paired {forest : Forest Token} (balanced : forest.Balanced)
    {front back : Tokens} {t : Token} (split : forest.flatten = front ++ t :: back) :
    t.Alone ∨ Paired front t back := by
  induction forest generalizing front back with
  | nil => cases front <;> cases split
  | leaf first next ih =>
      cases front with
      | nil =>
          obtain ⟨rfl, -⟩ := List.cons.inj split
          exact .inl balanced.1
      | cons u front =>
          have later := ih balanced.2 (List.cons.inj split).2
          exact later.imp_right fun paired => by simpa using paired.widen [u] []
  | pair o inside c next ihInside ihNext =>
      obtain ⟨partners, inner, outer⟩ := balanced
      cases front with
      | nil =>
          obtain ⟨rfl, rfl⟩ := List.cons.inj split
          exact .inr (.inl ⟨inside.flatten, c, next.flatten, rfl, Balanced.wellNested inner, partners⟩)
      | cons u front =>
          obtain ⟨rfl, behind⟩ := List.cons.inj split
          -- the token lies before the closer, is the closer, or lies behind it
          rcases split_cases behind.symm with ⟨rfl, rfl, -⟩ | ⟨more, within, rfl⟩ | ⟨more, rfl, last⟩
          · exact .inr (.inr ⟨[], o, inside.flatten, rfl, Balanced.wellNested inner, partners⟩)
          · have paired := ihInside inner within
            exact paired.imp_right fun paired => paired.widen [o] (c :: next.flatten)
          · have paired := ihNext outer last
            refine paired.imp_right fun paired => ?_
            simpa using paired.widen (o :: (inside.flatten ++ [c])) []

/-- The partner of an opener is a stray behind it. -/
theorem not_paired_of_strays {front rest : Tokens} {t : Token} (opens : t.tag.isOpener = true)
    (stays : strays rest = []) : ¬Paired front t rest := by
  rintro (⟨inside, c, later, rfl, nested, partners⟩ | ⟨earlier, o, inside, rfl, nested, partners⟩)
  · obtain ⟨forest, balanced, rfl⟩ := wellNested_iff_forest.1 nested
    rw [strays_flatten_append balanced.level, strays_closer partners.brackets.2] at stays
    cases stays
  · rw [Tag.isOpener_of_isCloser partners.brackets.2] at opens
    cases opens

/-! ## An opener without a partner -/

/-- The first member of a pair that has no partner, an opener, where the whole stream can go
on. -/
structure LeftOpen (front : Tokens) (t : Token) (rest : Tokens) : Prop where
  opens : t.tag.isOpener = true
  goesOn : CanGoOn (front ++ t :: rest)
  unpaired : ¬Paired front t rest
  earlier : ∀ left u right, front = left ++ u :: right →
    u.Alone ∨ Paired left u (right ++ t :: rest)

/-- A level stream whose closers answer is balanced. -/
theorem Forest.Level.balanced {forest : Forest Token} (level : forest.Level) {opened : Tokens}
    (answers : Answers opened forest.flatten) : forest.Balanced := by
  induction forest generalizing opened with
  | nil => trivial
  | leaf t next ih => exact ⟨level.1, ih level.2 answers.2⟩
  | pair o inside c next ihInside ihNext =>
      obtain ⟨⟨opens, closes⟩, inner, outer⟩ := level
      obtain ⟨-, behind⟩ := answers
      rw [pend_opener opens, answers_append, foldl_pend_flatten inner] at behind
      obtain ⟨within, meets, later⟩ := behind
      obtain ⟨p, last, partner⟩ := meets closes
      obtain rfl := Option.some.inj last
      exact ⟨⟨opens, partner⟩, ihInside inner within, ihNext outer later⟩

/-- An opener further out stays pending where nothing closes it. -/
theorem foldl_pend_concat {tokens opened : Tokens} (o : Token)
    (few : (strays tokens).length ≤ opened.length) :
    tokens.foldl pend (opened ++ [o]) = tokens.foldl pend opened ++ [o] := by
  induction tokens generalizing opened with
  | nil => rfl
  | cons t rest ih =>
      rw [List.foldl_cons, List.foldl_cons]
      rcases t.opens_or_closes_or_alone with opens | closes | alone
      · rw [strays_opener opens, List.length_tail] at few
        rw [pend_opener opens, pend_opener opens, ← List.cons_append]
        exact ih (by simp only [List.length_cons]; omega)
      · rw [strays_closer closes, List.length_cons] at few
        cases opened with
        | nil => simp at few
        | cons p outer =>
            rw [pend_closer closes, pend_closer closes]
            exact ih (by simpa using few)
      · rw [strays_alone alone] at few
        rw [pend_alone alone, pend_alone alone]
        exact ih few

/-- Where all closers answer, the stream is balanced, or nothing closes one of its openers and
before that it is balanced. -/
theorem Answers.cases {tokens : Tokens} (answers : Answers [] tokens) :
    (∃ forest : Forest Token, forest.Balanced ∧ forest.flatten = tokens) ∨
      ∃ (forest : Forest Token) (o : Token) (rest : Tokens), forest.Balanced ∧
        o.tag.isOpener = true ∧ tokens = forest.flatten ++ o :: rest ∧ strays rest = [] := by
  cases reach tokens with
  | closer inside c later meets =>
      rw [meets.split, answers_append, foldl_pend_flatten meets.level] at answers
      obtain ⟨o, none, -⟩ := answers.2.1 meets.closes
      cases none
  | level forest level flat =>
      subst flat
      exact .inl ⟨forest, level.balanced answers, rfl⟩
  | opener forest o rest level opens split stays =>
      subst split
      exact .inr ⟨forest, o, rest, level.balanced (answers_append.1 answers).1, opens, rfl, stays⟩

/-- Before an opener that is left open lies a balanced stream, and behind it nothing closes it. -/
theorem leftOpen_iff {front : Tokens} {t : Token} {rest : Tokens} :
    LeftOpen front t rest ↔ WellNested front ∧ t.tag.isOpener = true ∧ strays rest = [] ∧
      Answers [] (front ++ t :: rest) := by
  constructor
  · rintro ⟨opens, goesOn, unpaired, earlier⟩
    have notAlone : ∀ u : Token, u.tag.isOpener = true → ¬u.Alone := by
      rintro u opens ⟨notOpener, -⟩
      rw [opens] at notOpener
      cases notOpener
    have answers := canGoOn_iff.1 goesOn
    rcases answers.cases with ⟨forest, balanced, flat⟩ |
      ⟨forest, o, later, balanced, opens', split, stays⟩
    · exact absurd (balanced.paired flat) (not_or.2 ⟨notAlone t opens, unpaired⟩)
    · have unpaired' : ∀ left, ¬Paired left o later := fun _ => not_paired_of_strays opens' stays
      -- both are the first member of a pair without a partner
      rcases split_cases split with ⟨rfl, rfl, rfl⟩ | ⟨more, within, rfl⟩ | ⟨more, within, rfl⟩
      · exact ⟨balanced.wellNested, opens, stays, answers⟩
      · have paired := (balanced.paired within).resolve_left (notAlone t opens)
        exact absurd (by simpa using paired.widen [] (o :: later)) unpaired
      · have paired := (earlier _ _ _ within).resolve_left (notAlone o opens')
        exact absurd paired (unpaired' _)
  · rintro ⟨nested, opens, stays, answers⟩
    refine ⟨opens, canGoOn_iff.2 answers, not_paired_of_strays opens stays, ?_⟩
    intro left u right split
    obtain ⟨forest, balanced, rfl⟩ := wellNested_iff_forest.1 nested
    refine (balanced.paired split).imp_right fun paired => ?_
    simpa using paired.widen [] (t :: rest)

theorem LeftOpen.ensureBalance {front : Tokens} {t : Token} {rest : Tokens}
    (leftOpen : LeftOpen front t rest) :
    ensureBalance (front ++ t :: rest) = .error (.ofUnbalanced t) := by
  obtain ⟨nested, opens, stays, answers⟩ := leftOpen_iff.1 leftOpen
  obtain ⟨forest, balanced, rfl⟩ := wellNested_iff_forest.1 nested
  have few : (strays rest).length ≤ ([] : Tokens).length := by simp [stays]
  have pending : (forest.flatten ++ t :: rest).foldl pend [] = rest.foldl pend [] ++ [t] := by
    rw [List.foldl_append, foldl_pend_flatten balanced.level, List.foldl_cons, pend_opener opens]
    exact foldl_pend_concat t few
  have passed := checkBalance_answers answers []
  rw [List.append_nil] at passed
  rw [TokenLayout.ensureBalance, passed, pending, checkBalance]
  simp

/-! ## The verdict -/

/-- What the check finds in a stream. -/
inductive Verdict (tokens : Tokens) : Prop
  | nested (nested : WellNested tokens)
  | closer (front : Tokens) (t : Token) (rest : Tokens) (split : tokens = front ++ t :: rest)
      (misplaced : Misplaced front t)
  | opener (front : Tokens) (t : Token) (rest : Tokens) (split : tokens = front ++ t :: rest)
      (leftOpen : LeftOpen front t rest)

theorem verdict (tokens : Tokens) : Verdict tokens := by
  by_cases answers : Answers [] tokens
  · rcases answers.cases with ⟨forest, balanced, flat⟩ |
      ⟨forest, o, rest, balanced, opens, rfl, stays⟩
    · exact .nested (flat ▸ balanced.wellNested)
    · exact .opener _ o rest rfl (leftOpen_iff.2 ⟨balanced.wellNested, opens, stays, answers⟩)
  · obtain ⟨front, t, rest, split, before, closes, unanswered⟩ := exists_unanswered answers
    exact .closer front t rest split (misplaced_iff.2 ⟨closes, before, unanswered⟩)

/-- **The balance check decides nesting and blames the right token.**  It accepts just the well
nested streams.  It fails at a closer just if what is before that closer could have gone on and
what ends with it cannot, and at an opener just if the whole stream could have gone on and that
opener is the first member of a pair without a partner. -/
theorem ensureBalance_decides (tokens : Tokens) :
    (ensureBalance tokens = .ok () ↔ WellNested tokens) ∧
      ∀ fault, ensureBalance tokens = .error fault ↔
        ∃ front t rest, tokens = front ++ t :: rest ∧ fault = .ofUnbalanced t ∧
          (Misplaced front t ∨ LeftOpen front t rest) := by
  refine ⟨ensureBalance_eq_ok_iff, fun fault => ⟨fun failed => ?_, ?_⟩⟩
  · cases verdict tokens with
    | nested nested =>
        rw [ensureBalance_eq_ok_iff.2 nested] at failed
        cases failed
    | closer front t rest split misplaced =>
        rw [split, misplaced.ensureBalance] at failed
        exact ⟨front, t, rest, split, (Except.error.inj failed).symm, .inl misplaced⟩
    | opener front t rest split leftOpen =>
        rw [split, leftOpen.ensureBalance] at failed
        exact ⟨front, t, rest, split, (Except.error.inj failed).symm, .inr leftOpen⟩
  · rintro ⟨front, t, rest, rfl, rfl, misplaced | leftOpen⟩
    · exact misplaced.ensureBalance rest
    · exact leftOpen.ensureBalance

end TokenLayout
