/-
# TokenLayout.Proofs.Depth -- how many braces are open at a place

The mapping pass sees braces only.  So do the forest of the braces of a stream
(`Forest.braces`), in which pairs of other kinds are leaves, and the number of braces
open at a place (`Braces.depth`).  In a closed stream that number tells whether a place
lies inside a pair of braces, of whatever other pairs there are between
(`inBraces_iff`).

`Braces.outside?` reads the first colon outside all braces off a stream.  The passes
before the mapping pass do not change which one it is, and in a balanced stream it is
the first colon at the surface of the forest of braces.
-/
import TokenLayout.Proofs.Closed

namespace TokenLayout

set_option autoImplicit false

open List (Forall₂)

/-! ## Braces alone -/

/-- The forest of the braces of a stream: pairs of other kinds are leaves in it. -/
def Forest.braces : Forest Token → Forest Token
  | .nil => .nil
  | .leaf t next => .leaf t next.braces
  | .pair o inside c next =>
      if o.tag.isOpenBrace then .pair o inside.braces c next.braces
      else .leaf o (inside.braces.append (.leaf c next.braces))

theorem Forest.flatten_braces (forest : Forest Token) : forest.braces.flatten = forest.flatten := by
  induction forest with
  | nil => rfl
  | leaf t next ih => rw [braces, flatten, ih, flatten]
  | pair o inside c next ihInside ihNext =>
      rw [braces]
      split <;> simp [flatten, flatten_append, ihInside, ihNext]

/-- A pair of the braces is a pair of the forest. -/
theorem Forest.holds_of_braces {forest : Forest Token} {o c : Token} {inside : Forest Token}
    (holds : forest.braces.Holds o inside c) :
    ∃ within : Forest Token, forest.Holds o within c ∧ within.braces = inside := by
  induction forest with
  | nil => cases holds
  | leaf t next ih => exact ih holds
  | pair o' within c' next ihWithin ihNext =>
      rw [braces] at holds
      split at holds
      · rcases holds with ⟨rfl, rfl, rfl⟩ | deeper | later
        · exact ⟨within, .inl ⟨rfl, rfl, rfl⟩, rfl⟩
        · obtain ⟨under, holds, same⟩ := ihWithin deeper
          exact ⟨under, .inr (.inl holds), same⟩
        · obtain ⟨under, holds, same⟩ := ihNext later
          exact ⟨under, .inr (.inr holds), same⟩
      · rcases holds_append.1 holds with deeper | later
        · obtain ⟨under, holds, same⟩ := ihWithin deeper
          exact ⟨under, .inr (.inl holds), same⟩
        · obtain ⟨under, holds, same⟩ := ihNext later
          exact ⟨under, .inr (.inr holds), same⟩

theorem Token.Alone.noBrace {t : Token} (alone : t.Alone) : t.NoBrace := by
  have tags : ∀ tag : Tag, tag.isOpener = false → tag.isCloser = false →
      tag.isOpenBrace = false ∧ tag.isCloseBrace = false := by
    intro tag
    cases tag <;> decide
  exact tags t.tag alone.1 alone.2

/-- Of an opener and its closer both are braces or neither is. -/
theorem Token.ClosedBy.cases_brace {o c : Token} (closed : o.ClosedBy c) :
    (o.tag.isOpenBrace = true ∧ o.Braces c) ∨
      (o.tag.isOpenBrace = false ∧ o.NoBrace ∧ c.NoBrace) := by
  have tags : ∀ opener closer : Tag, opener.isOpener = true → opener.partner? = some closer →
      (opener.isOpenBrace = true ∧ closer.isCloseBrace = true) ∨
        (opener.isOpenBrace = false ∧ opener.isCloseBrace = false ∧
          closer.isOpenBrace = false ∧ closer.isCloseBrace = false) := by
    intro opener closer opens partner
    cases opener <;> revert opens <;> cases partner <;> decide
  rcases closed with ⟨opens, partner⟩ | ⟨call, paren⟩ | ⟨index, bracket⟩
  · rcases tags _ _ opens partner with ⟨brace, closes⟩ | ⟨noBrace, noClose, noOpen', noClose'⟩
    · exact .inl ⟨brace, brace, closes⟩
    · exact .inr ⟨noBrace, ⟨noBrace, noClose⟩, noOpen', noClose'⟩
  · simp [Token.NoBrace, call, paren, Tag.isOpenBrace, Tag.isCloseBrace]
  · simp [Token.NoBrace, index, bracket, Tag.isOpenBrace, Tag.isCloseBrace]

/-- The braces of a closed forest nest. -/
theorem Forest.Closed.braces {forest : Forest Token} (closed : forest.Closed) :
    forest.braces.Braced := by
  induction forest with
  | nil => trivial
  | leaf t next ih => exact ⟨closed.1.noBrace, ih closed.2⟩
  | pair o inside c next ihInside ihNext =>
      obtain ⟨pair, inner, outer⟩ := closed
      rw [Forest.braces]
      rcases pair.cases_brace with ⟨brace, braces⟩ | ⟨noBrace, opener, closer⟩
      · rw [if_pos brace]
        exact ⟨braces, ihInside inner, ihNext outer⟩
      · rw [if_neg (by simp [noBrace])]
        exact ⟨opener, Forest.nests_append (ihInside inner) ⟨closer, ihNext outer⟩⟩

namespace Braces

/-! ## Depth -/

/-- The number of braces open after one more token. -/
def deepen (depth : Nat) (t : Token) : Nat :=
  if t.tag.isOpenBrace then depth + 1 else if t.tag.isCloseBrace then depth - 1 else depth

/-- The number of braces open after these tokens. -/
def depth (front : Tokens) : Nat :=
  front.foldl deepen 0

theorem deepen_noBrace {t : Token} (noBrace : t.NoBrace) (d : Nat) : deepen d t = d := by
  simp [deepen, noBrace.1, noBrace.2]

theorem deepen_opener {t : Token} (opens : t.tag.isOpenBrace = true) (d : Nat) :
    deepen d t = d + 1 := by
  simp [deepen, opens]

theorem deepen_closer {t : Token} (closes : t.tag.isCloseBrace = true) (d : Nat) :
    deepen d t = d - 1 := by
  simp [deepen, closes, Tag.isOpenBrace_of_isCloseBrace closes]

/-- Braces that nest leave the depth as it was. -/
theorem foldl_deepen_flatten {forest : Forest Token} (braced : forest.Braced) (d : Nat) :
    forest.flatten.foldl deepen d = d := by
  induction forest generalizing d with
  | nil => rfl
  | leaf t next ih =>
      simp only [Forest.flatten, List.foldl_cons, deepen_noBrace braced.1]
      exact ih braced.2 d
  | pair o inside c next ihInside ihNext =>
      obtain ⟨⟨opens, closes⟩, inner, outer⟩ := braced
      simp only [Forest.flatten, List.foldl_cons, List.foldl_append, deepen_opener opens,
        ihInside inner, deepen_closer closes, Nat.add_sub_cancel]
      exact ihNext outer d

/-- Behind an open brace and braces that nest, a brace is open. -/
theorem depth_inside_pos {o : Token} (opens : o.tag.isOpenBrace = true) {before : Forest Token}
    (braced : before.Braced) (left : Tokens) : 0 < depth (left ++ o :: before.flatten) := by
  rw [depth, List.foldl_append, List.foldl_cons, deepen_opener opens, foldl_deepen_flatten braced]
  exact Nat.succ_pos _

/-- A token between these lies inside a pair of braces. -/
def InBraces (front : Tokens) (t : Token) (back : Tokens) : Prop :=
  ∃ (left : Tokens) (o : Token) (inner inner' : Tokens) (c : Token) (right : Tokens),
    front = left ++ o :: inner ∧ back = inner' ++ c :: right ∧ o.tag.isOpenBrace = true ∧
      o.ClosedBy c ∧ ExplicitlyClosed (inner ++ t :: inner')

/-- In a closed stream a colon lies inside a pair of braces just if a brace is open there. -/
theorem inBraces_iff {front back : Tokens} {t : Token} (colon : t.tag = .colon)
    (closed : ExplicitlyClosed (front ++ t :: back)) :
    InBraces front t back ↔ 0 < depth front := by
  constructor
  · rintro ⟨left, o, inner, inner', c, right, rfl, rfl, opens, -, within, nests, flat⟩
    -- the pair nearest to the colon may lie deeper than the given one
    have braced := nests.braces
    rw [← Forest.flatten_braces] at flat
    rcases cases_colon braced.loose colon flat with ⟨before, after, split, rfl, -⟩ |
      ⟨left', o', before, after, c', right', holds, rfl, -⟩
    · rw [split] at braced
      exact depth_inside_pos opens braced.of_append.1 left
    · obtain ⟨⟨opens', -⟩, inner⟩ := braced.loose.of_holds holds
      have pos := depth_inside_pos opens' inner.of_append.1 (left ++ o :: left')
      simpa using pos
  · intro pos
    obtain ⟨forest, nests, flat⟩ := closed
    have braced := nests.braces
    rw [← Forest.flatten_braces] at flat
    rcases cases_colon braced.loose colon flat with ⟨before, after, split, rfl, -⟩ |
      ⟨left, o, before, after, c, right, holds, rfl, rfl⟩
    · rw [split] at braced
      rw [depth, foldl_deepen_flatten braced.of_append.1] at pos
      exact absurd pos (Nat.lt_irrefl 0)
    · obtain ⟨⟨opens, -⟩, -⟩ := braced.loose.of_holds holds
      -- back in the forest of all pairs, for the inside has to be closed in all of them
      obtain ⟨within, holds, same⟩ := Forest.holds_of_braces holds
      obtain ⟨closedBy, inner⟩ := nests.of_holds holds
      refine ⟨left, o, before.flatten, after.flatten, c, right, rfl, rfl, opens, closedBy, within,
        inner, ?_⟩
      rw [← Forest.flatten_braces, same, Forest.flatten_append, Forest.flatten]

/-! ## The first colon outside -/

/-- The first colon outside all braces, given the number of braces open. -/
def outside? (depth : Nat) : Tokens → Option Token
  | [] => none
  | t :: rest => if t.tag = .colon ∧ depth = 0 then some t else outside? (deepen depth t) rest

theorem outside?_noBrace {t : Token} (noBrace : t.NoBrace) (other : t.tag ≠ .colon) (d : Nat)
    (rest : Tokens) : outside? d (t :: rest) = outside? d rest := by
  simp [outside?, other, deepen_noBrace noBrace]

theorem outside?_brace {t : Token} (brace : t.tag.isOpenBrace = true ∨ t.tag.isCloseBrace = true)
    (d : Nat) (rest : Tokens) : outside? d (t :: rest) = outside? (deepen d t) rest := by
  have other : t.tag ≠ .colon := by
    rcases brace with opens | closes
    · exact noColon_of_isOpenBrace opens
    · exact noColon_of_isCloseBrace closes
  simp [outside?, other]

/-- In front of the first colon outside, every colon has a brace around it. -/
theorem outside?_eq_some {d : Nat} {tokens : Tokens} {t : Token}
    (first : outside? d tokens = some t) :
    ∃ front back, tokens = front ++ t :: back ∧ t.tag = .colon ∧ front.foldl deepen d = 0 ∧
      ∀ front' u back', front = front' ++ u :: back' → u.tag = .colon →
        0 < front'.foldl deepen d := by
  induction tokens generalizing d with
  | nil => cases first
  | cons u rest ih =>
      rw [outside?] at first
      split at first
      · rename_i here
        obtain rfl := Option.some.inj first
        refine ⟨[], rest, rfl, here.1, here.2, ?_⟩
        intro front' u back' split
        cases front' <;> cases split
      · rename_i notHere
        obtain ⟨front, back, rfl, colon, outside, inside⟩ := ih first
        refine ⟨u :: front, back, rfl, colon, outside, ?_⟩
        intro front' w back' split colon'
        cases front' with
        | nil =>
            obtain ⟨rfl, -⟩ := List.cons.inj split
            refine Nat.pos_of_ne_zero fun none => notHere ⟨colon', none⟩
        | cons x front' =>
            obtain ⟨rfl, later⟩ := List.cons.inj split
            exact inside front' w back' later colon'

theorem foldl_deepen_pos {d : Nat} {tokens : Tokens} (none : outside? d tokens = none)
    {front back : Tokens} {t : Token} (split : tokens = front ++ t :: back)
    (colon : t.tag = .colon) : 0 < front.foldl deepen d := by
  induction front generalizing d tokens with
  | nil =>
      subst split
      refine Nat.pos_of_ne_zero fun zero => ?_
      rw [List.nil_append, outside?, if_pos ⟨colon, zero⟩] at none
      cases none
  | cons u front ih =>
      subst split
      rw [List.cons_append, outside?] at none
      split at none
      · cases none
      · exact ih none rfl

/-- Below the surface no colon is outside. -/
theorem outside?_flatten_append {forest : Forest Token} (braced : forest.Braced) (d : Nat)
    (rest : Tokens) :
    outside? d (forest.flatten ++ rest) =
      (if d = 0 then forest.surface.find? fun t => t.tag == .colon else none).or
        (outside? d rest) := by
  induction forest generalizing d rest with
  | nil => simp
  | leaf t next ih =>
      simp only [Forest.flatten, List.cons_append, Forest.surface, List.find?_cons]
      by_cases colon : t.tag = .colon
      · by_cases zero : d = 0
        · simp [outside?, colon, zero]
        · simp [outside?, zero, deepen_noBrace braced.1, ih braced.2]
      · have other : (t.tag == .colon) = false := by simpa using colon
        rw [outside?_noBrace braced.1 colon, ih braced.2, other]
  | pair o inside c next ihInside ihNext =>
      obtain ⟨⟨opens, closes⟩, inner, outer⟩ := braced
      simp only [Forest.flatten, List.cons_append, List.append_assoc, Forest.surface]
      rw [outside?_brace (.inl opens), deepen_opener opens, ihInside inner,
        outside?_brace (.inr closes), deepen_closer closes, Nat.add_sub_cancel, ihNext outer]
      simp

theorem outside?_flatten {forest : Forest Token} (braced : forest.Braced) :
    outside? 0 forest.flatten = forest.surface.find? fun t => t.tag == .colon := by
  have whole := outside?_flatten_append braced 0 []
  rw [List.append_nil] at whole
  simpa [outside?] using whole

/-- Retagged tokens have the first colon outside at the same location. -/
theorem outside?_retagged {tokens tokens' : Tokens}
    (retagged : Forall₂ Token.Retagged tokens tokens') (d : Nat) :
    (outside? d tokens').map Token.reportedAt = (outside? d tokens).map Token.reportedAt := by
  induction retagged generalizing d with
  | nil => rfl
  | @cons t u rest rest' one _ ih =>
      have located : u.reportedAt = t.reportedAt := by
        rw [one.2]
        rfl
      have depth : deepen d u = deepen d t := by
        obtain ⟨-, -, opens, closes⟩ := one.1.classes
        rw [deepen, opens, closes, deepen]
      have colon : u.tag = .colon ↔ t.tag = .colon := by
        constructor
        · intro same
          have fixed : ∀ p ∈ Tag.retags, p.2 ≠ .colon := by decide
          rw [one.eq (by rwa [same])]
          exact same
        · intro same
          have final : ∀ p ∈ Tag.retags, p.1 ≠ .colon := by decide
          rw [one.eq_of_final (by rwa [same])]
          exact same
      simp only [outside?, colon, depth]
      split
      · exact congrArg some located
      · exact ih _

theorem outside?_dropLeading (d : Nat) (tokens : Tokens) :
    outside? d (Statements.dropLeading tokens) = outside? d tokens := by
  induction tokens with
  | nil => rfl
  | cons t rest ih =>
      by_cases leading : t.tag = .terminator
      · have noBrace : t.NoBrace := by
          simp [Token.NoBrace, leading, Tag.isOpenBrace, Tag.isCloseBrace]
        rw [outside?_noBrace noBrace (by simp [leading]), ← ih]
        simp [leading]
      · simp [leading]

end Braces

end TokenLayout
