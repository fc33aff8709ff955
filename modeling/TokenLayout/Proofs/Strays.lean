/-
# TokenLayout.Proofs.Strays -- the closers a stream does not open

On any stream, balanced or not, some closers close an opener before them in that
stream and the others are its strays.  The first stray is the first closer at
depth zero, and a level forest lies before it: the stream `Meets` it.

A stream comes to one of three things at depth zero (`reach`): a stray, its end,
or an opener that nothing behind it closes.  A region whose stop holds at closers
only ends there: at or before the stray, at the end, or not at all.
-/
import TokenLayout.Proofs.Regions

namespace TokenLayout

set_option autoImplicit false

/-- The closers that no opener of the stream accounts for, first one first. -/
def strays : Tokens → Tokens
  | [] => []
  | t :: rest =>
      if t.tag.isOpener then (strays rest).tail
      else if t.tag.isCloser then t :: strays rest
      else strays rest

theorem strays_opener {t : Token} (opens : t.tag.isOpener = true) (rest : Tokens) :
    strays (t :: rest) = (strays rest).tail := by
  simp [strays, opens]

theorem strays_closer {t : Token} (closes : t.tag.isCloser = true) (rest : Tokens) :
    strays (t :: rest) = t :: strays rest := by
  simp [strays, closes, Tag.isOpener_of_isCloser closes]

theorem strays_alone {t : Token} (alone : t.Alone) (rest : Tokens) :
    strays (t :: rest) = strays rest := by
  simp [strays, alone.1, alone.2]

/-- A level forest has no strays, and accounts for none behind it. -/
theorem strays_flatten_append {forest : Forest Token} (level : forest.Level) (rest : Tokens) :
    strays (forest.flatten ++ rest) = strays rest := by
  induction forest generalizing rest with
  | nil => rfl
  | leaf t next ih =>
      rw [Forest.flatten, List.cons_append, strays_alone level.1, ih level.2]
  | pair o inside c next ihInside ihNext =>
      obtain ⟨⟨opens, closes⟩, inner, outer⟩ := level
      simp only [Forest.flatten, List.cons_append, List.append_assoc]
      rw [strays_opener opens, ihInside inner, strays_closer closes, List.tail_cons, ihNext outer]

theorem strays_flatten {forest : Forest Token} (level : forest.Level) :
    strays forest.flatten = [] := by
  have none := strays_flatten_append level []
  rwa [List.append_nil] at none

/-- An opener that nothing behind it closes has no strays behind it. -/
theorem strays_open {forest : Forest Token} (level : forest.Level) {o : Token} {rest : Tokens}
    (opens : o.tag.isOpener = true) (stays : strays rest = []) :
    strays (forest.flatten ++ o :: rest) = [] := by
  rw [strays_flatten_append level, strays_opener opens, stays, List.tail_nil]

/-- More strays behind a token leave no fewer in front of it. -/
theorem length_strays_cons_le {rest rest' : Tokens}
    (fewer : (strays rest).length ≤ (strays rest').length) (t : Token) :
    (strays (t :: rest)).length ≤ (strays (t :: rest')).length := by
  rcases t.opens_or_closes_or_alone with opens | closes | alone
  · rw [strays_opener opens, strays_opener opens, List.length_tail, List.length_tail]
    omega
  · rw [strays_closer closes, strays_closer closes]
    exact Nat.succ_le_succ fewer
  · rwa [strays_alone alone, strays_alone alone]

/-- Which closers are strays is told by the tags. -/
theorem map_tag_strays {tokens tokens' : Tokens}
    (same : tokens.map Token.tag = tokens'.map Token.tag) :
    (strays tokens).map Token.tag = (strays tokens').map Token.tag := by
  induction tokens generalizing tokens' with
  | nil =>
      obtain rfl := List.map_eq_nil_iff.1 same.symm
      rfl
  | cons t rest ih =>
      obtain ⟨u, rest', rfl, tag, sameRest⟩ := List.map_eq_cons_iff.1 same.symm
      have later := ih sameRest.symm
      simp only [strays, tag]
      split
      · rw [List.map_tail, List.map_tail, later]
      · split
        · rw [List.map_cons, List.map_cons, tag, later]
        · exact later

/-! ## The first stray -/

/-- The first closer at depth zero of a stream, the level forest before it and the rest
of the stream behind it. -/
structure Meets (tokens : Tokens) (inside : Forest Token) (closer : Token) (rest : Tokens) :
    Prop where
  level : inside.Level
  closes : closer.tag.isCloser = true
  split : tokens = inside.flatten ++ closer :: rest

namespace Meets

variable {tokens rest : Tokens} {inside : Forest Token} {closer : Token}

theorem strays (meets : Meets tokens inside closer rest) :
    strays tokens = closer :: strays rest := by
  rw [meets.split, strays_flatten_append meets.level, strays_closer meets.closes]

/-- There is only one first closer at depth zero. -/
theorem unique (meets : Meets tokens inside closer rest) {inside' : Forest Token}
    {closer' : Token} {rest' : Tokens} (meets' : Meets tokens inside' closer' rest') :
    inside = inside' ∧ closer = closer' ∧ rest = rest' := by
  obtain ⟨level, closes, rfl⟩ := meets
  obtain ⟨level', closes', split⟩ := meets'
  have pairs : ∀ o c : Token, o.Brackets c → o.tag.isOpener = true ∧ c.tag.isCloser = true :=
    fun _ _ brackets => brackets
  refine Forest.Nests.split_unique (fun t : Token => t.tag.isOpener = true)
    (fun t : Token => t.tag.isCloser = true) ?_ pairs ?_ level level' closes closes' split
  · rintro t ⟨notOpener, notCloser⟩
    simp [notOpener, notCloser]
  · intro t opens
    simp [Tag.isCloser_of_isOpener opens]

theorem leaf {t : Token} (alone : t.Alone) (meets : Meets tokens inside closer rest) :
    Meets (t :: tokens) (.leaf t inside) closer rest :=
  ⟨⟨alone, meets.level⟩, meets.closes, by rw [meets.split]; rfl⟩

theorem pair {o c : Token} {within : Forest Token} {after : Tokens}
    (opens : o.tag.isOpener = true) (inner : Meets tokens within c after)
    (meets : Meets after inside closer rest) :
    Meets (o :: tokens) (.pair o within c inside) closer rest :=
  ⟨⟨⟨opens, inner.closes⟩, inner.level, meets.level⟩, meets.closes,
    by simp [inner.split, meets.split]⟩

end Meets

/-- What a stream comes to at depth zero. -/
inductive Reach (tokens : Tokens) : Prop
  /-- A closer that it does not open. -/
  | closer (inside : Forest Token) (closer : Token) (rest : Tokens)
      (meets : Meets tokens inside closer rest)
  /-- Its end. -/
  | level (forest : Forest Token) (level : forest.Level) (flat : tokens = forest.flatten)
  /-- An opener that stays open. -/
  | opener (forest : Forest Token) (o : Token) (rest : Tokens) (level : forest.Level)
      (opens : o.tag.isOpener = true) (split : tokens = forest.flatten ++ o :: rest)
      (stays : strays rest = [])

theorem Reach.leaf {t : Token} {tokens : Tokens} (alone : t.Alone) (reach : Reach tokens) :
    Reach (t :: tokens) := by
  cases reach with
  | closer inside c rest meets => exact .closer _ _ _ (meets.leaf alone)
  | level forest level flat => exact .level (.leaf t forest) ⟨alone, level⟩ (by rw [flat]; rfl)
  | opener forest o rest level opens split stays =>
      exact .opener (.leaf t forest) o rest ⟨alone, level⟩ opens (by rw [split]; rfl) stays

theorem Reach.pair {o c : Token} {tokens after : Tokens} {within : Forest Token}
    (opens : o.tag.isOpener = true) (meets : Meets tokens within c after) (reach : Reach after) :
    Reach (o :: tokens) := by
  have inner : Forest.Level (.pair o within c .nil) := ⟨⟨opens, meets.closes⟩, meets.level, trivial⟩
  cases reach with
  | closer inside c' rest later => exact .closer _ _ _ (meets.pair opens later)
  | level forest level flat =>
      exact .level (.pair o within c forest) ⟨inner.1, inner.2.1, level⟩
        (by rw [meets.split, flat]; rfl)
  | opener forest o' rest level opens' split stays =>
      exact .opener (.pair o within c forest) o' rest ⟨inner.1, inner.2.1, level⟩ opens'
        (by simp [meets.split, split]) stays

/-- **Every stream comes to a closer it does not open, to its end, or to an opener that
stays open.** -/
theorem reach (tokens : Tokens) : Reach tokens := by
  match tokens with
  | [] => exact .level .nil trivial rfl
  | t :: rest =>
      have later := reach rest
      rcases t.opens_or_closes_or_alone with opens | closes | alone
      · cases later with
        | closer inside c after meets =>
            -- the closer that ends the pair is behind `t`, so what follows it is shorter
            have shorter : after.length < rest.length := by
              rw [meets.split, List.length_append, List.length_cons]
              omega
            exact (reach after).pair opens meets
        | level forest level flat =>
            exact .opener .nil t rest trivial opens rfl (by rw [flat, strays_flatten level])
        | opener forest o after level opens' split stays =>
            exact .opener .nil t rest trivial opens rfl
              (by rw [split, strays_open level opens' stays])
      · exact .closer .nil t rest ⟨trivial, closes, rfl⟩
      · exact later.leaf alone
termination_by tokens.length

/-- A stream that has strays meets the first of them. -/
theorem exists_meets {tokens : Tokens} (some_ : strays tokens ≠ []) :
    ∃ inside closer rest, Meets tokens inside closer rest := by
  cases reach tokens with
  | closer inside c rest meets => exact ⟨inside, c, rest, meets⟩
  | level forest level flat => exact absurd (by rw [flat, strays_flatten level]) some_
  | opener forest o rest level opens split stays =>
      exact absurd (by rw [split, strays_open level opens stays]) some_

theorem exists_meets_iff {P : Token → Prop} {tokens : Tokens} :
    (∃ inside closer rest, Meets tokens inside closer rest ∧ P closer) ↔
      ∃ closer ∈ (strays tokens).head?, P closer := by
  constructor
  · rintro ⟨inside, closer, rest, meets, holds⟩
    exact ⟨closer, by rw [meets.strays]; rfl, holds⟩
  · rintro ⟨closer, first, holds⟩
    have some_ : strays tokens ≠ [] := by
      rintro none
      rw [none] at first
      cases first
    obtain ⟨inside, closer', rest, meets⟩ := exists_meets some_
    rw [meets.strays] at first
    obtain rfl : closer' = closer := by simpa using first
    exact ⟨inside, closer', rest, meets, holds⟩

/-- One closer is the first stray behind one opener only. -/
theorem eq_of_meets {front front' after after' rest : Tokens} {o o' closer closer' : Token}
    {inside inside' : Forest Token} (same : front ++ o :: after = front' ++ o' :: after')
    (opens : o.tag.isOpener = true) (opens' : o'.tag.isOpener = true)
    (meets : Meets after inside closer rest) (meets' : Meets after' inside' closer' rest) :
    front = front' := by
  -- an opener behind the other one would still be pending at the closer they share
  have no_later : ∀ {o closer closer' : Token} {inside inside' : Forest Token}
      {middle : Tokens}, o.tag.isOpener = true → inside.Level → inside'.Level →
      inside.flatten ++ closer :: rest ≠ middle ++ o :: (inside'.flatten ++ closer' :: rest) := by
    intro o closer closer' inside inside' middle opens level level' split
    have cut : (inside.flatten ++ [closer]) ++ rest =
        ((middle ++ o :: inside'.flatten) ++ [closer']) ++ rest := by
      simpa using split
    have whole := (List.append_inj' (List.append_cancel_right cut) rfl).1
    have none := foldl_pend_flatten level []
    rw [whole, List.foldl_append, List.foldl_cons, foldl_pend_flatten level',
      pend_opener opens] at none
    cases none
  rcases split_cases same with ⟨here, -, -⟩ | ⟨middle, -, behind⟩ | ⟨middle, -, behind⟩
  · exact here
  · rw [meets.split, meets'.split] at behind
    exact absurd behind (no_later opens' meets.level meets'.level)
  · rw [meets.split, meets'.split] at behind
    exact absurd behind (no_later opens meets'.level meets.level)

/-! ## An opener that stays open -/

/-- The stream has this opener, and nothing behind it closes it. -/
def OpenIn (tokens : Tokens) (o : Token) : Prop :=
  ∃ front rest, tokens = front ++ o :: rest ∧ o.tag.isOpener = true ∧ strays rest = []

/-- What stands in front of a stream closes none of its openers. -/
theorem OpenIn.behind {tokens : Tokens} {o : Token} (open_ : OpenIn tokens o) (before : Tokens) :
    OpenIn (before ++ tokens) o := by
  obtain ⟨front, rest, rfl, opens, stays⟩ := open_
  exact ⟨before ++ front, rest, (List.append_assoc ..).symm, opens, stays⟩

namespace Region

variable {stop : Condition}

/-- A scan does not come back to depth zero behind an opener that nothing closes. -/
theorem ending_unclosed {tokens : Tokens} {opened : List (Nat × Token)} (o : Nat × Token)
    (few : (strays tokens).length ≤ opened.length) (before : Tokens) (index : Nat) :
    (scan stop (opened ++ [o]) before index tokens).ending = .unclosed o.1 o.2 := by
  induction tokens generalizing opened before index with
  | nil => simp [scan]
  | cons t rest ih =>
      have inside : (opened ++ [o]).isEmpty = false := by simp
      rw [ending_cons, inside, Bool.false_and, if_neg Bool.false_ne_true]
      rcases t.opens_or_closes_or_alone with opens | closes | alone
      · rw [if_pos opens]
        rw [strays_opener opens, List.length_tail] at few
        have few' : (strays rest).length ≤ ((index, t) :: opened).length := by
          rw [List.length_cons]
          omega
        exact ih few' _ _
      · rw [Tag.isOpener_of_isCloser closes, if_neg Bool.false_ne_true, if_pos closes]
        rw [strays_closer closes, List.length_cons] at few
        cases opened with
        | nil => simp at few
        | cons p outer => exact ih (by simpa using few) _ _
      · rw [alone.1, alone.2, if_neg Bool.false_ne_true, if_neg Bool.false_ne_true]
        rw [strays_alone alone] at few
        exact ih few _ _

/-- A region in which an opener stays open does not end. -/
theorem after_opener {forest : Forest Token} (level : forest.Level) {before rest : Tokens}
    {o : Token} (quiet : forest.Quiet stop before (o :: rest))
    (silent : stop (forest.flatten.reverse ++ before) o rest = false)
    (opens : o.tag.isOpener = true) (stays : strays rest = []) :
    (after stop before (forest.flatten ++ o :: rest)).ending =
      .unclosed forest.flatten.length o := by
  have few : (strays rest).length ≤ ([] : List (Nat × Token)).length := by simp [stays]
  rw [after, ending_quiet level quiet, ending_opener _ silent opens, Nat.zero_add]
  exact ending_unclosed (forest.flatten.length, o) few _ _

/-- A region that does not end blames the opener at depth zero that nothing behind it closes. -/
theorem exists_of_unclosed {before tokens : Tokens} {index i : Nat} {o : Token}
    (ends : (scan stop [] before index tokens).ending = .unclosed i o) :
    ∃ (between : Forest Token) (rest : Tokens), between.Level ∧ o.tag.isOpener = true ∧
      tokens = between.flatten ++ o :: rest ∧ i = index + between.flatten.length ∧
      strays rest = [] := by
  have nowhere : ∀ {rest : Tokens}, Ends stop rest →
      (scan stop [] before index rest).ending ≠ .unclosed i o := fun ended => ended _ _ _ _
  cases reach tokens with
  | closer inside c rest meets =>
      rw [meets.split] at ends
      exact absurd ends (nowhere ((ends_closer meets.closes rest).flatten meets.level))
  | level forest level flat =>
      rw [flat, ← List.append_nil forest.flatten] at ends
      exact absurd ends (nowhere (ends_nil.flatten level))
  | opener forest p rest level opens split stays =>
      rw [split] at ends
      rcases ending_level level before (p :: rest) index with ⟨_, _, stops⟩ | passed
      · rw [stops] at ends
        cases ends
      · have few : (strays rest).length ≤ ([] : List (Nat × Token)).length := by simp [stays]
        have open_ : ∀ before, (scan stop [(index + forest.flatten.length, p)] before
            (index + forest.flatten.length + 1) rest).ending =
              .unclosed (index + forest.flatten.length) p :=
          fun before => ending_unclosed _ few before _
        rw [passed] at ends
        cases holds : stop (forest.flatten.reverse ++ before) p rest with
        | true =>
            rw [ending_stop _ holds] at ends
            cases ends
        | false =>
            rw [ending_opener _ holds opens] at ends
            obtain ⟨rfl, rfl⟩ := RegionEnd.unclosed.inj ((open_ _).symm.trans ends)
            exact ⟨forest, rest, level, opens, split, rfl, stays⟩

end Region

end TokenLayout
