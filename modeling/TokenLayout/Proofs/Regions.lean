/-
# TokenLayout.Proofs.Regions -- regions over nested streams

A region scan counts openers and closers of all kinds alike, so what it passes
over is a level forest.  Inside a pair the stop condition is not even asked
(`Region.scan_inside`).  At depth zero it is asked at every leaf and at every
opener, and never at a closer; a forest at which it never holds is `Quiet`, and a
scan passes over it (`Region.ending_quiet`).  What comes after the forest then
settles how the region ends.
-/
import TokenLayout.Region
import TokenLayout.Proofs.Forest

namespace TokenLayout

set_option autoImplicit false

/-- A stop condition that holds at no token of depth zero in a forest, which
stands after the tokens `before`, nearest first, and before the tokens `after`. -/
def Forest.Quiet (stop : Condition) : (before : Tokens) → Forest Token → (after : Tokens) → Prop
  | _, .nil, _ => True
  | before, .leaf t next, after =>
      stop before t (next.flatten ++ after) = false ∧ next.Quiet stop (t :: before) after
  | before, .pair opener inside closer next, after =>
      stop before opener (inside.flatten ++ closer :: (next.flatten ++ after)) = false ∧
        next.Quiet stop (closer :: (inside.flatten.reverse ++ opener :: before)) after

/-- A condition that holds at closers only is quiet at any level forest. -/
theorem Forest.Level.quiet {stop : Condition}
    (onClosers : ∀ before t after, stop before t after = true → t.tag.isCloser = true)
    {forest : Forest Token} (level : forest.Level) (before after : Tokens) :
    forest.Quiet stop before after := by
  have silent : ∀ {t : Token}, t.tag.isCloser = false →
      ∀ before after, stop before t after = false := by
    intro t notCloser before after
    cases holds : stop before t after with
    | false => rfl
    | true => rw [onClosers _ _ _ holds] at notCloser; cases notCloser
  induction forest generalizing before with
  | nil => trivial
  | leaf t next ih => exact ⟨silent level.1.2 _ _, ih level.2 _⟩
  | pair o inside c next ihInside ihNext =>
      obtain ⟨⟨opens, -⟩, -, outer⟩ := level
      exact ⟨silent (Tag.isCloser_of_isOpener opens) _ _, ihNext outer _⟩

/-- The same end, counted from a place so many tokens further back. -/
def RegionEnd.shift (n : Nat) : RegionEnd → RegionEnd
  | .stop i t => .stop (n + i) t
  | .implicit i => .implicit (n + i)
  | .unclosed i o => .unclosed (n + i) o

namespace Region

variable {stop : Condition}

/-! ## One token -/

/-- How a scan ends, one token on. -/
theorem ending_cons (opened : List (Nat × Token)) (before : Tokens) (index : Nat) (t : Token)
    (after : Tokens) :
    (scan stop opened before index (t :: after)).ending =
      if opened.isEmpty && stop before t after then .stop index t
      else if t.tag.isOpener then
        (scan stop ((index, t) :: opened) (t :: before) (index + 1) after).ending
      else if t.tag.isCloser then
        match opened with
        | _ :: outer => (scan stop outer (t :: before) (index + 1) after).ending
        | [] => .implicit index
      else (scan stop opened (t :: before) (index + 1) after).ending := by
  simp only [scan]
  split
  · rfl
  · cases opened <;> simp only [List.isEmpty_nil, List.isEmpty_cons, if_true, Bool.false_eq_true,
      if_false] <;> split <;> (try split) <;> rfl

theorem ending_stop {before after : Tokens} {t : Token} (index : Nat)
    (holds : stop before t after = true) :
    (scan stop [] before index (t :: after)).ending = .stop index t := by
  simp [scan, holds]

theorem ending_closer {before after : Tokens} {t : Token} (index : Nat)
    (silent : stop before t after = false) (closes : t.tag.isCloser = true) :
    (scan stop [] before index (t :: after)).ending = .implicit index := by
  simp [scan, silent, closes, Tag.isOpener_of_isCloser closes]

theorem ending_alone {before after : Tokens} {t : Token} (index : Nat)
    (silent : stop before t after = false) (alone : t.Alone) :
    (scan stop [] before index (t :: after)).ending =
      (scan stop [] (t :: before) (index + 1) after).ending := by
  simp [scan, silent, alone.1, alone.2]

theorem ending_opener {before after : Tokens} {t : Token} (index : Nat)
    (silent : stop before t after = false) (opens : t.tag.isOpener = true) :
    (scan stop [] before index (t :: after)).ending =
      (scan stop [(index, t)] (t :: before) (index + 1) after).ending := by
  simp [scan, silent, opens]

/-- Where a scan counts from does not matter to how it ends. -/
theorem ending_shift (n : Nat) (opened : List (Nat × Token)) (before : Tokens) (index : Nat)
    (tokens : Tokens) :
    (scan stop (opened.map fun p => (n + p.1, p.2)) before (n + index) tokens).ending =
      (scan stop opened before index tokens).ending.shift n := by
  induction tokens generalizing opened before index with
  | nil =>
      simp only [scan, List.getLast?_map]
      cases opened.getLast? <;> rfl
  | cons t after ih =>
      have onward := fun opened => ih opened (t :: before) (index + 1)
      have same : (opened.map fun p => (n + p.1, p.2)).isEmpty = opened.isEmpty := by
        cases opened <;> rfl
      rw [ending_cons, ending_cons, same]
      split
      · rfl
      · split
        · exact onward ((index, t) :: opened)
        · split
          · cases opened with
            | nil => rfl
            | cons o outer => exact onward outer
          · exact onward opened

/-! ## A whole forest -/

/-- Inside a pair a scan passes over a level stream without asking. -/
theorem scan_inside {forest : Forest Token} (level : forest.Level) (o : Nat × Token)
    (outer : List (Nat × Token)) (before rest : Tokens) (index : Nat) :
    scan stop (o :: outer) before index (forest.flatten ++ rest) =
      scan stop (o :: outer) (forest.flatten.reverse ++ before)
        (index + forest.flatten.length) rest := by
  induction forest generalizing o outer before rest index with
  | nil => rfl
  | leaf t next ih =>
      obtain ⟨⟨notOpener, notCloser⟩, later⟩ := level
      simp only [Forest.flatten, List.cons_append, scan, List.isEmpty_cons, Bool.false_and,
        notOpener, notCloser, if_false, Bool.false_eq_true]
      rw [ih later]
      simp only [List.reverse_cons, List.append_assoc, List.singleton_append, List.length_cons]
      congr 1
      omega
  | pair opener inside closer next ihInside ihNext =>
      obtain ⟨⟨opens, closes⟩, inner, later⟩ := level
      simp only [Forest.flatten, List.cons_append, List.append_assoc, scan, List.isEmpty_cons,
        Bool.false_and, opens, if_true, if_false, Bool.false_eq_true]
      rw [ihInside inner]
      simp only [scan, List.isEmpty_cons, Bool.false_and, closes,
        Tag.isOpener_of_isCloser closes, if_true, if_false, Bool.false_eq_true]
      rw [ihNext later]
      simp only [List.reverse_cons, List.reverse_append, List.append_assoc,
        List.length_cons, List.length_append, List.cons_append,
        List.nil_append]
      congr 1
      omega

/-- At depth zero a scan passes over a forest at which the condition is quiet. -/
theorem ending_quiet {forest : Forest Token} (level : forest.Level) {before after : Tokens}
    (quiet : forest.Quiet stop before after) (index : Nat) :
    (scan stop [] before index (forest.flatten ++ after)).ending =
      (scan stop [] (forest.flatten.reverse ++ before)
        (index + forest.flatten.length) after).ending := by
  induction forest generalizing before index with
  | nil => rfl
  | leaf t next ih =>
      obtain ⟨silent, quietNext⟩ := quiet
      rw [Forest.flatten, List.cons_append, ending_alone index silent level.1,
        ih level.2 quietNext]
      simp only [List.reverse_cons, List.append_assoc, List.singleton_append, List.length_cons]
      congr 2
      omega
  | pair o inside c next ihInside ihNext =>
      obtain ⟨⟨opens, closes⟩, inner, later⟩ := level
      obtain ⟨silent, quietNext⟩ := quiet
      simp only [Forest.flatten, List.cons_append, List.append_assoc]
      rw [ending_opener index silent opens, scan_inside inner]
      have closed : ∀ b i a, (scan stop [(index, o)] b i (c :: a)).ending =
          (scan stop [] (c :: b) (i + 1) a).ending := by
        intro b i a
        simp [scan, closes, Tag.isOpener_of_isCloser closes]
      rw [closed, ihNext later quietNext]
      simp only [List.reverse_cons, List.reverse_append, List.append_assoc,
        List.length_cons, List.length_append, List.cons_append,
        List.nil_append]
      congr 2
      omega

/-- A scan stops at the surface of a level forest or passes over it. -/
theorem ending_level {forest : Forest Token} (level : forest.Level) (before after : Tokens)
    (index : Nat) :
    (∃ i t, (scan stop [] before index (forest.flatten ++ after)).ending = .stop i t) ∨
      (scan stop [] before index (forest.flatten ++ after)).ending =
        (scan stop [] (forest.flatten.reverse ++ before)
          (index + forest.flatten.length) after).ending := by
  by_cases quiet : forest.Quiet stop before after
  · exact .inr (ending_quiet level quiet index)
  · left
    induction forest generalizing before index with
    | nil => exact absurd trivial quiet
    | leaf t next ih =>
        cases holds : stop before t (next.flatten ++ after) with
        | true => exact ⟨_, _, ending_stop index holds⟩
        | false =>
            rw [Forest.flatten, List.cons_append, ending_alone index holds level.1]
            exact ih level.2 _ _ fun later => quiet ⟨holds, later⟩
    | pair o inside c next _ ih =>
        obtain ⟨⟨opens, closes⟩, inner, outer⟩ := level
        simp only [Forest.flatten, List.cons_append, List.append_assoc]
        cases holds : stop before o (inside.flatten ++ c :: (next.flatten ++ after)) with
        | true => exact ⟨_, _, ending_stop index holds⟩
        | false =>
            rw [ending_opener index holds opens, scan_inside inner]
            have closed : ∀ b i a, (scan stop [(index, o)] b i (c :: a)).ending =
                (scan stop [] (c :: b) (i + 1) a).ending := by
              intro b i a
              simp [scan, closes, Tag.isOpener_of_isCloser closes]
            rw [closed]
            exact ih outer _ _ fun later => quiet ⟨holds, later⟩

/-- A region that reaches its stop after a quiet forest. -/
theorem after_stop {forest : Forest Token} (level : forest.Level) {before rest : Tokens}
    {t : Token} (quiet : forest.Quiet stop before (t :: rest))
    (holds : stop (forest.flatten.reverse ++ before) t rest = true) :
    (after stop before (forest.flatten ++ t :: rest)).ending =
      .stop forest.flatten.length t := by
  rw [after, ending_quiet level quiet, ending_stop _ holds, Nat.zero_add]

/-- A region that ends before a closer after a quiet forest. -/
theorem after_closer {forest : Forest Token} (level : forest.Level) {before rest : Tokens}
    {t : Token} (quiet : forest.Quiet stop before (t :: rest))
    (silent : stop (forest.flatten.reverse ++ before) t rest = false)
    (closes : t.tag.isCloser = true) :
    (after stop before (forest.flatten ++ t :: rest)).ending =
      .implicit forest.flatten.length := by
  rw [after, ending_quiet level quiet, ending_closer _ silent closes, Nat.zero_add]

/-- A region that ends with the stream after a quiet forest. -/
theorem after_end {forest : Forest Token} (level : forest.Level) {before : Tokens}
    (quiet : forest.Quiet stop before []) :
    (after stop before forest.flatten).ending = .implicit forest.flatten.length := by
  have passed := ending_quiet level quiet 0
  rw [List.append_nil] at passed
  rw [after, passed, Nat.zero_add]
  rfl

/-! ## Where a region ends -/

/-- Where a region stops, its stop condition holds. -/
theorem exists_of_stop {opened : List (Nat × Token)} {before tokens : Tokens} {index i : Nat}
    {last : Token} (ends : (scan stop opened before index tokens).ending = .stop i last) :
    ∃ left right, tokens = left ++ last :: right ∧ i = index + left.length ∧
      stop (left.reverse ++ before) last right = true := by
  induction tokens generalizing opened before index with
  | nil =>
      unfold scan at ends
      split at ends <;> cases ends
  | cons t after ih =>
      rw [ending_cons] at ends
      have onward : ∀ {opened : List (Nat × Token)},
          (scan stop opened (t :: before) (index + 1) after).ending = .stop i last →
          ∃ left right, t :: after = left ++ last :: right ∧ i = index + left.length ∧
            stop (left.reverse ++ before) last right = true := by
        intro opened ends
        obtain ⟨left, right, rfl, rfl, holds⟩ := ih ends
        exact ⟨t :: left, right, rfl, by simp only [List.length_cons]; omega, by simpa using holds⟩
      split at ends
      · rename_i holds
        obtain ⟨rfl, rfl⟩ := RegionEnd.stop.inj ends
        simp only [Bool.and_eq_true] at holds
        exact ⟨[], after, rfl, rfl, holds.2⟩
      · split at ends
        · exact onward ends
        · split at ends
          · cases opened with
            | nil => cases ends
            | cons o outer => exact onward ends
          · exact onward ends

/-- Where a region ends implicitly, a closer follows or nothing does. -/
theorem exists_of_implicit {opened : List (Nat × Token)} {before tokens : Tokens}
    {index i : Nat} (ends : (scan stop opened before index tokens).ending = .implicit i) :
    ∃ left right, tokens = left ++ right ∧ i = index + left.length ∧
      ∀ t ∈ right.head?, t.tag.isCloser = true := by
  induction tokens generalizing opened before index with
  | nil =>
      unfold scan at ends
      split at ends
      · cases ends
      · exact ⟨[], [], rfl, (RegionEnd.implicit.inj ends).symm, by simp⟩
  | cons t after ih =>
      rw [ending_cons] at ends
      have onward : ∀ {opened : List (Nat × Token)},
          (scan stop opened (t :: before) (index + 1) after).ending = .implicit i →
          ∃ left right, t :: after = left ++ right ∧ i = index + left.length ∧
            ∀ t ∈ right.head?, t.tag.isCloser = true := by
        intro opened ends
        obtain ⟨left, right, rfl, rfl, next⟩ := ih ends
        exact ⟨t :: left, right, rfl, by simp only [List.length_cons]; omega, next⟩
      split at ends
      · cases ends
      · split at ends
        · exact onward ends
        · split at ends
          · rename_i closes
            cases opened with
            | nil =>
                refine ⟨[], t :: after, rfl, (RegionEnd.implicit.inj ends).symm, ?_⟩
                rintro u first
                obtain rfl : t = u := by simpa using first
                exact closes
            | cons o outer => exact onward ends
          · exact onward ends

/-- What lies before the token at which a region stops, with openers met before: a level
forest up to the closer of each of them, and then one at which the condition is quiet. -/
def StopsAt (stop : Condition) (last : Token) : (opened : Nat) → (before tokens : Tokens) → Prop
  | 0, before, tokens =>
      ∃ (forest : Forest Token) (rest : Tokens), forest.Level ∧
        tokens = forest.flatten ++ last :: rest ∧ forest.Quiet stop before (last :: rest) ∧
        stop (forest.flatten.reverse ++ before) last rest = true
  | outer + 1, before, tokens =>
      ∃ (forest : Forest Token) (closer : Token) (rest : Tokens), forest.Level ∧
        closer.tag.isCloser = true ∧ tokens = forest.flatten ++ closer :: rest ∧
        StopsAt stop last outer (closer :: (forest.flatten.reverse ++ before)) rest

theorem StopsAt.leaf {last t : Token} {opened : Nat} {before after : Tokens} (alone : t.Alone)
    (silent : opened = 0 → stop before t after = false)
    (stops : StopsAt stop last opened (t :: before) after) :
    StopsAt stop last opened before (t :: after) := by
  cases opened with
  | zero =>
      obtain ⟨forest, rest, level, rfl, quiet, holds⟩ := stops
      exact ⟨.leaf t forest, rest, ⟨alone, level⟩, rfl, ⟨silent rfl, quiet⟩,
        by simpa using holds⟩
  | succ outer =>
      obtain ⟨forest, closer, rest, level, closes, rfl, later⟩ := stops
      exact ⟨.leaf t forest, closer, rest, ⟨alone, level⟩, closes, rfl,
        by simpa using later⟩

theorem StopsAt.pair {last t : Token} {opened : Nat} {before after : Tokens}
    (opens : t.tag.isOpener = true) (silent : opened = 0 → stop before t after = false)
    (stops : StopsAt stop last (opened + 1) (t :: before) after) :
    StopsAt stop last opened before (t :: after) := by
  obtain ⟨inside, c, rest, inner, closes, rfl, stops⟩ := stops
  cases opened with
  | zero =>
      obtain ⟨forest, rest, level, rfl, quiet, holds⟩ := stops
      exact ⟨.pair t inside c forest, rest, ⟨⟨opens, closes⟩, inner, level⟩,
        by simp, ⟨by simpa using silent rfl, quiet⟩,
        by simpa using holds⟩
  | succ outer =>
      obtain ⟨forest, closer, rest, level, closes', rfl, later⟩ := stops
      exact ⟨.pair t inside c forest, closer, rest, ⟨⟨opens, closes⟩, inner, level⟩, closes',
        by simp, by simpa using later⟩

theorem stopsAt_of_scan {opened : List (Nat × Token)} {before tokens : Tokens} {index i : Nat}
    {last : Token} (ends : (scan stop opened before index tokens).ending = .stop i last) :
    StopsAt stop last opened.length before tokens := by
  induction tokens generalizing opened before index with
  | nil =>
      unfold scan at ends
      split at ends <;> cases ends
  | cons t after ih =>
      rw [ending_cons] at ends
      split at ends
      · rename_i holds
        obtain ⟨rfl, rfl⟩ := RegionEnd.stop.inj ends
        simp only [Bool.and_eq_true, List.isEmpty_iff] at holds
        obtain ⟨rfl, holds⟩ := holds
        exact ⟨.nil, after, trivial, rfl, trivial, holds⟩
      · rename_i goesOn
        -- the condition is asked at the surface only, so there alone it is known to be quiet
        have silent : opened.length = 0 → stop before t after = false := by
          intro none
          obtain rfl := List.eq_nil_of_length_eq_zero none
          simpa using goesOn
        split at ends
        · rename_i opens
          exact .pair opens silent (ih ends)
        · rename_i notOpener
          split at ends
          · rename_i closes
            cases opened with
            | nil => cases ends
            | cons o outer => exact ⟨.nil, t, after, trivial, closes, rfl, ih ends⟩
          · rename_i notCloser
            exact .leaf ⟨by simpa using notOpener, by simpa using notCloser⟩ silent (ih ends)

/-- A region stops at a token just if a level forest at which the condition is quiet lies
before it. -/
theorem after_stop_iff {before tokens : Tokens} {last : Token} :
    (∃ i, (after stop before tokens).ending = .stop i last) ↔
      StopsAt stop last 0 before tokens := by
  constructor
  · rintro ⟨i, ends⟩
    exact stopsAt_of_scan ends
  · rintro ⟨forest, rest, level, rfl, quiet, holds⟩
    exact ⟨_, after_stop level quiet holds⟩

/-! ## Nothing left open -/

/-- A region that starts here ends before anything in it stays open. -/
def Ends (stop : Condition) (tokens : Tokens) : Prop :=
  ∀ before index i o, (scan stop [] before index tokens).ending ≠ .unclosed i o

theorem ends_nil : Ends stop [] := by
  intro before index i o ends
  cases ends

theorem ends_closer {t : Token} (closes : t.tag.isCloser = true) (rest : Tokens) :
    Ends stop (t :: rest) := by
  intro before index i o ends
  rw [ending_cons, Tag.isOpener_of_isCloser closes, closes] at ends
  split at ends <;> cases ends

/-- A level forest in front leaves nothing open. -/
theorem Ends.flatten {forest : Forest Token} (level : forest.Level) {rest : Tokens}
    (ends : Ends stop rest) : Ends stop (forest.flatten ++ rest) := by
  induction forest with
  | nil => exact ends
  | leaf t next ih =>
      intro before index i o open_
      rw [Forest.flatten, List.cons_append, ending_cons, level.1.1, level.1.2] at open_
      split at open_
      · cases open_
      · exact ih level.2 _ _ _ _ open_
  | pair o inside c next _ ih =>
      obtain ⟨⟨opens, closes⟩, inner, outer⟩ := level
      intro before index i u open_
      simp only [Forest.flatten, List.cons_append, List.append_assoc] at open_
      rw [ending_cons, opens] at open_
      split at open_
      · cases open_
      · rw [if_pos rfl, scan_inside inner, ending_cons] at open_
        simp only [List.isEmpty_cons, Bool.false_and, Bool.false_eq_true, if_false,
          Tag.isOpener_of_isCloser closes, closes, if_true] at open_
        exact ih outer _ _ _ _ open_

/-- Nor does it from anywhere within a level forest. -/
theorem Ends.within {forest : Forest Token} (level : forest.Level) {left right rest : Tokens}
    (ends : Ends stop rest) (split : forest.flatten = left ++ right) :
    Ends stop (right ++ rest) := by
  induction forest generalizing left right rest with
  | nil =>
      obtain ⟨rfl, rfl⟩ := List.append_eq_nil_iff.1 split.symm
      exact ends
  | leaf t next ih =>
      cases left with
      | nil =>
          rw [List.nil_append] at split
          rw [← split]
          exact ends.flatten level
      | cons u left => exact ih level.2 ends (List.cons.inj split).2
  | pair o inside c next ihInside ihNext =>
      have whole := ends.flatten level
      obtain ⟨brackets, inner, outer⟩ := level
      cases left with
      | nil =>
          rw [List.nil_append] at split
          rwa [← split]
      | cons u left =>
          have apart := (List.cons.inj split).2
          rcases List.append_eq_append_iff.1 apart with ⟨more, rfl, later⟩ | ⟨more, within, rfl⟩
          · cases more with
            | nil =>
                rw [List.nil_append] at later
                rw [← later]
                exact ends_closer brackets.2 _
            | cons w more => exact ihNext outer ends (List.cons.inj later).2
          · rw [List.append_assoc]
            exact ihInside inner (ends_closer brackets.2 _) within

end Region

end TokenLayout
