/-
# TokenLayout.Proofs.Braces -- braces that nest and braces that do not

To the search for the braces around a colon only braces count: generic ones and
mapping braces, an opener of either kind with a closer of either kind.  A stream
in which they nest is a `Forest.Braced` forest, in which everything else is a
leaf, and a search passes over it (`Passes`).

Any stream at all is a `Forest.Loose` forest: below the surface braces nest, and
at the surface lie also the braces without a partner.  Every closer among these
comes before every opener, for otherwise the two would be partners
(`exists_loose`).
-/
import TokenLayout.Pass.Braces
import TokenLayout.Proofs.Forest

namespace TokenLayout

set_option autoImplicit false

/-! ## Braces -/

/-- A token that is no brace. -/
def Token.NoBrace (t : Token) : Prop :=
  t.tag.isOpenBrace = false ∧ t.tag.isCloseBrace = false

/-- An open brace and a close brace. -/
def Token.Braces (opener closer : Token) : Prop :=
  opener.tag.isOpenBrace = true ∧ closer.tag.isCloseBrace = true

theorem Tag.isCloseBrace_of_isOpenBrace {t : Tag} (opens : t.isOpenBrace = true) :
    t.isCloseBrace = false := by
  cases t <;> revert opens <;> decide

theorem Tag.isOpenBrace_of_isCloseBrace {t : Tag} (closes : t.isCloseBrace = true) :
    t.isOpenBrace = false := by
  cases t <;> revert closes <;> decide

theorem Token.noBrace_of_colon {t : Token} (colon : t.tag = .colon) : t.NoBrace := by
  simp [Token.NoBrace, colon, Tag.isOpenBrace, Tag.isCloseBrace]

/-- Braces nest. -/
def Forest.Braced (forest : Forest Token) : Prop :=
  forest.Nests Token.NoBrace Token.Braces

/-- Braces nest below the surface. -/
def Forest.Loose : Forest Token → Prop
  | .nil => True
  | .leaf _ next => next.Loose
  | .pair o inside c next => o.Braces c ∧ inside.Braced ∧ next.Loose

/-- No open brace at the surface comes before a close brace there. -/
def Forest.Facing (forest : Forest Token) : Prop :=
  forest.surface.Pairwise fun t u => ¬(t.tag.isOpenBrace = true ∧ u.tag.isCloseBrace = true)

theorem Forest.facing_append_iff {front back : Forest Token} :
    (front.append back).Facing ↔ front.Facing ∧ back.Facing ∧
      ∀ t ∈ front.surface, ∀ u ∈ back.surface,
        ¬(t.tag.isOpenBrace = true ∧ u.tag.isCloseBrace = true) := by
  rw [Forest.Facing, Forest.surface_append, List.pairwise_append]
  rfl

theorem Forest.Braced.loose {forest : Forest Token} (braced : forest.Braced) : forest.Loose := by
  induction forest with
  | nil => trivial
  | leaf t next ih => exact ih braced.2
  | pair o inside c next _ ih => exact ⟨braced.1, braced.2.1, ih braced.2.2⟩

theorem Forest.Braced.facing {forest : Forest Token} (braced : forest.Braced) :
    forest.Facing := by
  refine List.Pairwise.imp_of_mem (fun member _ _ both => ?_) (List.pairwise_of_forall
    (R := fun _ _ => True) fun _ _ => trivial)
  have alone := braced.surface member
  rw [alone.1] at both
  cases both.1

theorem Forest.Loose.append {forest after : Forest Token} (first : forest.Loose)
    (second : after.Loose) : (forest.append after).Loose := by
  induction forest with
  | nil => exact second
  | leaf t next ih => exact ih first
  | pair o inside c next _ ih => exact ⟨first.1, first.2.1, ih first.2.2⟩

/-- A pair that a loose forest holds is a pair of braces, with braces that nest inside. -/
theorem Forest.Loose.of_holds {forest : Forest Token} (loose : forest.Loose) {o c : Token}
    {inside : Forest Token} (holds : forest.Holds o inside c) : o.Braces c ∧ inside.Braced := by
  induction forest with
  | nil => cases holds
  | leaf t next ih => exact ih loose holds
  | pair o' within c' next _ ih =>
      obtain ⟨braces, inner, outer⟩ := loose
      rcases holds with ⟨rfl, rfl, rfl⟩ | deeper | later
      · exact ⟨braces, inner⟩
      · exact inner.of_holds deeper
      · exact ih outer later

/-! ## Every stream is a loose forest -/

/-- A stream either reaches a close brace without partner, after a forest, or is a loose
forest without one. -/
theorem exists_cut (tokens : Tokens) :
    (∃ (front : Forest Token) (closer : Token) (rest : Tokens), front.Braced ∧
      closer.tag.isCloseBrace = true ∧ tokens = front.flatten ++ closer :: rest) ∨
    ∃ forest : Forest Token, forest.Loose ∧
      (∀ t ∈ forest.surface, t.tag.isCloseBrace = false) ∧ forest.flatten = tokens := by
  match tokens with
  | [] => exact .inr ⟨.nil, trivial, by simp, rfl⟩
  | t :: later =>
      by_cases closes : t.tag.isCloseBrace = true
      · exact .inl ⟨.nil, t, later, trivial, closes, rfl⟩
      · have notCloser : t.tag.isCloseBrace = false := by simpa using closes
        rcases exists_cut later with ⟨front, c, rest, braced, closer, rfl⟩ |
          ⟨forest, loose, open_, rfl⟩
        · by_cases opens : t.tag.isOpenBrace = true
          · -- the closer met is the partner of `t`; go on behind it
            rcases exists_cut rest with ⟨front', c', rest', braced', closer', rfl⟩ |
              ⟨forest, loose, open_, rfl⟩
            · exact .inl ⟨.pair t front c front', c', rest', ⟨⟨opens, closer⟩, braced, braced'⟩,
                closer', by simp⟩
            · exact .inr ⟨.pair t front c forest, ⟨⟨opens, closer⟩, braced, loose⟩, open_,
                by simp⟩
          · exact .inl ⟨.leaf t front, c, rest, ⟨⟨by simpa using opens, notCloser⟩, braced⟩,
              closer, rfl⟩
        · refine .inr ⟨.leaf t forest, loose, ?_, rfl⟩
          intro u member
          rcases List.mem_cons.1 member with rfl | later
          · exact notCloser
          · exact open_ u later
termination_by tokens.length
decreasing_by all_goals simp_all <;> omega

/-- **Every stream is a loose forest**, whose lone closers come before its lone openers. -/
theorem exists_loose (tokens : Tokens) :
    ∃ forest : Forest Token, forest.Loose ∧ forest.Facing ∧ forest.flatten = tokens := by
  rcases exists_cut tokens with ⟨front, c, rest, braced, closer, rfl⟩ | ⟨forest, loose, open_, rfl⟩
  · obtain ⟨forest, loose, facing, rfl⟩ := exists_loose rest
    refine ⟨front.append (.leaf c forest), braced.loose.append loose, ?_,
      by simp⟩
    refine Forest.facing_append_iff.2 ⟨braced.facing, List.pairwise_cons.2 ⟨?_, facing⟩, ?_⟩
    · intro u _ both
      rw [Tag.isOpenBrace_of_isCloseBrace closer] at both
      cases both.1
    · intro t member u _ both
      rw [(braced.surface member).1] at both
      cases both.1
  · refine ⟨forest, loose, ?_, rfl⟩
    refine List.Pairwise.imp_of_mem (fun _ member _ both => ?_) (List.pairwise_of_forall
      (R := fun _ _ => True) fun _ _ => trivial)
    rw [open_ _ member] at both
    cases both.2
termination_by tokens.length
decreasing_by simp_all; omega

namespace Braces

/-! ## Searching -/

/-- What is found behind these tokens. -/
def Sought.behind (front : Tokens) (sought : Sought) : Sought :=
  { sought with passed := front ++ sought.passed }

/-- A search passes over these tokens and goes on behind them. -/
def Passes (wanted nested : Tag → Bool) (tokens : Tokens) : Prop :=
  ∀ depth rest, seek wanted nested depth (tokens ++ rest) =
    (seek wanted nested depth rest).map (Sought.behind tokens)

/-- A search finds nothing in these tokens, however deep it is. -/
def Misses (wanted nested : Tag → Bool) (tokens : Tokens) : Prop :=
  ∀ depth, seek wanted nested depth tokens = none

section

variable {wanted nested : Tag → Bool}

theorem seek_cons_other {t : Token} (notNested : nested t.tag = false)
    (notWanted : wanted t.tag = false) (depth : Nat) (rest : Tokens) :
    seek wanted nested depth (t :: rest) =
      (seek wanted nested depth rest).map (Sought.behind [t]) := by
  simp only [seek, notNested, notWanted, Bool.false_eq_true, if_false]
  rfl

theorem seek_cons_nested {t : Token} (isNested : nested t.tag = true) (depth : Nat)
    (rest : Tokens) :
    seek wanted nested depth (t :: rest) =
      (seek wanted nested (depth + 1) rest).map (Sought.behind [t]) := by
  simp only [seek, isNested, if_true]
  rfl

theorem seek_cons_wanted {t : Token} (notNested : nested t.tag = false)
    (isWanted : wanted t.tag = true) (depth : Nat) (rest : Tokens) :
    seek wanted nested (depth + 1) (t :: rest) =
      (seek wanted nested depth rest).map (Sought.behind [t]) := by
  simp only [seek, notNested, isWanted, Bool.false_eq_true, if_false, if_true]
  rfl

theorem seek_zero_wanted {t : Token} (notNested : nested t.tag = false)
    (isWanted : wanted t.tag = true) (rest : Tokens) :
    seek wanted nested 0 (t :: rest) = some ⟨[], t, rest⟩ := by
  simp only [seek, notNested, isWanted, Bool.false_eq_true, if_false, if_true]

/-- What a search finds, and where. -/
theorem split_of_seek {depth : Nat} {tokens : Tokens} {sought : Sought}
    (found : seek wanted nested depth tokens = some sought) :
    tokens = sought.passed ++ sought.token :: sought.beyond ∧ wanted sought.token.tag = true := by
  induction tokens generalizing depth sought with
  | nil => cases found
  | cons t rest ih =>
      have behind : ∀ {deeper},
          ((seek wanted nested deeper rest).map fun s => { s with passed := t :: s.passed }) =
            some sought →
          t :: rest = sought.passed ++ sought.token :: sought.beyond ∧
            wanted sought.token.tag = true := by
        intro deeper later
        obtain ⟨further, foundLater, rfl⟩ := Option.map_eq_some_iff.1 later
        obtain ⟨split, isWanted⟩ := ih foundLater
        exact ⟨congrArg (t :: ·) split, isWanted⟩
      simp only [seek] at found
      split at found
      · exact behind found
      · split at found
        · rename_i here
          cases depth with
          | zero =>
              obtain rfl := Option.some.inj found
              exact ⟨rfl, here⟩
          | succ depth => exact behind found
        · exact behind found

theorem behind_behind (front more : Tokens) (sought : Option Sought) :
    (sought.map (Sought.behind more)).map (Sought.behind front) =
      sought.map (Sought.behind (front ++ more)) := by
  cases sought <;> simp [Sought.behind]

namespace Passes

theorem nil : Passes wanted nested [] := by
  intro depth rest
  rw [List.nil_append]
  cases seek wanted nested depth rest <;> rfl

theorem append {front more : Tokens} (first : Passes wanted nested front)
    (second : Passes wanted nested more) : Passes wanted nested (front ++ more) := by
  intro depth rest
  rw [List.append_assoc, first, second, behind_behind]

theorem single {t : Token} (notNested : nested t.tag = false) (notWanted : wanted t.tag = false) :
    Passes wanted nested [t] :=
  fun depth rest => seek_cons_other notNested notWanted depth rest

/-- A search passes over a pair that lies in its way. -/
theorem around {first last : Token} {inside : Tokens} (isNested : nested first.tag = true)
    (passes : Passes wanted nested inside) (notNested : nested last.tag = false)
    (isWanted : wanted last.tag = true) :
    Passes wanted nested (first :: (inside ++ [last])) := by
  intro depth rest
  rw [List.cons_append, List.append_assoc, seek_cons_nested isNested, passes, List.singleton_append,
    seek_cons_wanted notNested isWanted, behind_behind, behind_behind]
  rfl

/-- What a search passes over does not start with the token it is looking for. -/
theorem head {first : Token} {more : Tokens} (passes : Passes wanted nested (first :: more))
    (notNested : nested first.tag = false) : wanted first.tag = false := by
  cases isWanted : wanted first.tag with
  | false => rfl
  | true =>
      have same := passes 0 []
      rw [List.cons_append, seek_zero_wanted notNested isWanted] at same
      cases found : seek wanted nested 0 [] with
      | none => simp [found] at same
      | some sought => simp [found, Sought.behind] at same

/-- A search that starts in front of what it passes over finds the token behind it. -/
theorem found {front rest : Tokens} {t : Token} (passes : Passes wanted nested front)
    (notNested : nested t.tag = false) (isWanted : wanted t.tag = true) :
    seek wanted nested 0 (front ++ t :: rest) = some ⟨front, t, rest⟩ := by
  rw [passes, seek_zero_wanted notNested isWanted]
  simp [Sought.behind]

end Passes

namespace Misses

theorem nil : Misses wanted nested [] := fun _ => rfl

theorem cons {t : Token} {rest : Tokens} (notWanted : wanted t.tag = false)
    (misses : Misses wanted nested rest) : Misses wanted nested (t :: rest) := by
  intro depth
  by_cases isNested : nested t.tag = true
  · rw [seek_cons_nested isNested, misses]
    rfl
  · rw [seek_cons_other (by simpa using isNested) notWanted, misses]
    rfl

theorem append {front rest : Tokens} (passes : Passes wanted nested front)
    (misses : Misses wanted nested rest) : Misses wanted nested (front ++ rest) := by
  intro depth
  rw [passes, misses]
  rfl

end Misses

end

/-! ## Searching a forest -/

/-- Looking for a close brace, a search passes over a braced forest. -/
theorem passes_flatten {forest : Forest Token} (braced : forest.Braced) :
    Passes Tag.isCloseBrace Tag.isOpenBrace forest.flatten := by
  induction forest with
  | nil => exact .nil
  | leaf t next ih => exact (Passes.single braced.1.1 braced.1.2).append (ih braced.2)
  | pair o inside c next ihInside ihNext =>
      obtain ⟨⟨opens, closes⟩, inner, outer⟩ := braced
      have pair := Passes.around opens (ihInside inner) (Tag.isOpenBrace_of_isCloseBrace closes)
        closes
      simpa using pair.append (ihNext outer)

/-- Looking back for an open brace, a search passes over a braced forest. -/
theorem passes_reverse_flatten {forest : Forest Token} (braced : forest.Braced) :
    Passes Tag.isOpenBrace Tag.isCloseBrace forest.flatten.reverse := by
  induction forest with
  | nil => exact .nil
  | leaf t next ih =>
      have back := (ih braced.2).append (Passes.single braced.1.2 braced.1.1)
      simpa using back
  | pair o inside c next ihInside ihNext =>
      obtain ⟨⟨opens, closes⟩, inner, outer⟩ := braced
      have pair := Passes.around closes (ihInside inner) (Tag.isCloseBrace_of_isOpenBrace opens)
        opens
      simpa using (ihNext outer).append pair

/-- The brace after a place inside a pair is the pair's own. -/
theorem closeBrace?_inside {inside : Forest Token} (braced : inside.Braced) {c : Token}
    (closes : c.tag.isCloseBrace = true) (after : Tokens) :
    closeBrace? (inside.flatten ++ c :: after) = some ⟨inside.flatten, c, after⟩ :=
  (passes_flatten braced).found (Tag.isOpenBrace_of_isCloseBrace closes) closes

/-- And so is the brace before it. -/
theorem openBrace?_inside {inside : Forest Token} (braced : inside.Braced) {o : Token}
    (opens : o.tag.isOpenBrace = true) (before : Tokens) :
    openBrace? (inside.flatten.reverse ++ o :: before) = some ⟨inside.flatten.reverse, o, before⟩ :=
  (passes_reverse_flatten braced).found (Tag.isCloseBrace_of_isOpenBrace opens) opens

/-- At the surface no open brace comes before a place behind closers only. -/
theorem openBrace?_surface {forest : Forest Token} (loose : forest.Loose)
    (noOpener : ∀ t ∈ forest.surface, t.tag.isOpenBrace = false) :
    openBrace? forest.flatten.reverse = none := by
  suffices misses : ∀ before, Misses Tag.isOpenBrace Tag.isCloseBrace before →
      Misses Tag.isOpenBrace Tag.isCloseBrace (forest.flatten.reverse ++ before) by
    have whole := misses [] .nil 0
    rwa [List.append_nil] at whole
  induction forest with
  | nil => exact fun _ misses => misses
  | leaf t next ih =>
      intro before misses
      have here := ih loose (fun u member => noOpener u (.tail _ member)) (t :: before)
        (.cons (noOpener t (.head _)) misses)
      simpa using here
  | pair o inside c next _ ih =>
      obtain ⟨⟨opens, closes⟩, inner, outer⟩ := loose
      intro before misses
      have pair := Passes.around closes (passes_reverse_flatten inner)
        (Tag.isCloseBrace_of_isOpenBrace opens) opens
      have here := ih outer noOpener _ (Misses.append pair misses)
      simpa using here

/-- At the surface no close brace comes after a place in front of openers only. -/
theorem closeBrace?_surface {forest : Forest Token} (loose : forest.Loose)
    (noCloser : ∀ t ∈ forest.surface, t.tag.isCloseBrace = false) :
    closeBrace? forest.flatten = none := by
  suffices misses : Misses Tag.isCloseBrace Tag.isOpenBrace forest.flatten from misses 0
  induction forest with
  | nil => exact .nil
  | leaf t next ih =>
      exact .cons (noCloser t (.head _)) (ih loose fun u member => noCloser u (.tail _ member))
  | pair o inside c next _ ih =>
      obtain ⟨⟨opens, closes⟩, inner, outer⟩ := loose
      have pair := Passes.around opens (passes_flatten inner)
        (Tag.isOpenBrace_of_isCloseBrace closes) closes
      have here := Misses.append pair (ih outer noCloser)
      simpa using here

end Braces

end TokenLayout
