/-
# TokenLayout.Proofs.Matching -- partners among the braces of any stream

In any stream a brace has one partner at most (`Matches.unique_behind`,
`Matches.unique_before`), whatever else the stream holds.

When the mapping pass comes to a brace, it has changed tokens before it already, and
they tell whether the brace opens a class body.  All it can change about that is to
put the end of another body's block behind a class word and a brace.  So this too is
told by the stream as it was (`OpensBody`), and what a pair is `Told` of the tokens
before it, as the pass has left them, is the same.
-/
import TokenLayout.Proofs.Mappings

namespace TokenLayout

set_option autoImplicit false

/-- A word that says that what comes next opens a class body. -/
def Token.isClassWord (t : Token) : Bool :=
  t.tag == .classWord || t.tag == .extendsWord

namespace Braces

/-! ## Partners -/

/-- Two braces and what lies between them, where braces nest. -/
structure Matches (o : Token) (inside : Forest Token) (c : Token) : Prop where
  braces : o.Braces c
  braced : inside.Braced

namespace Matches

variable {o o' c c' : Token} {inside inside' : Forest Token}

/-- An open brace has one partner at most. -/
theorem unique_behind (pair : Matches o inside c) (pair' : Matches o' inside' c')
    {later later' : Tokens}
    (same : inside.flatten ++ c :: later = inside'.flatten ++ c' :: later') :
    inside = inside' ∧ c = c' ∧ later = later' := by
  have braces : ∀ o c : Token, o.Braces c →
      o.tag.isOpenBrace = true ∧ c.tag.isCloseBrace = true := fun _ _ braces => braces
  refine Forest.Nests.split_unique (fun t : Token => t.tag.isOpenBrace = true)
    (fun t : Token => t.tag.isCloseBrace = true) ?_ braces ?_ pair.braced pair'.braced
    pair.braces.2 pair'.braces.2 same
  · rintro t ⟨notOpener, notCloser⟩
    simp [notOpener, notCloser]
  · intro t opens
    simp [Tag.isCloseBrace_of_isOpenBrace opens]

/-- So has a close brace. -/
theorem unique_before (pair : Matches o inside c) (pair' : Matches o' inside' c')
    {earlier earlier' : Tokens}
    (same : inside.flatten.reverse ++ o :: earlier = inside'.flatten.reverse ++ o' :: earlier') :
    inside = inside' ∧ o = o' ∧ earlier = earlier' := by
  have sought := openBrace?_inside pair.braced pair.braces.1 earlier
  rw [same, openBrace?_inside pair'.braced pair'.braces.1 earlier'] at sought
  obtain ⟨flat, rfl, rfl⟩ := Sought.mk.inj (Option.some.inj sought)
  have forest : inside.flatten ++ c :: [] = inside'.flatten ++ c :: [] := by
    rw [List.reverse_inj.1 flat]
  exact ⟨(pair.unique_behind ⟨⟨pair.braces.1, pair.braces.2⟩, pair'.braced⟩ forest).1, rfl, rfl⟩

end Matches

/-! ## Class bodies -/

/-- A class word is the last token before this place, or the last but one: but for a place right
behind a class body that ends with a class word, since the block around that body ends in
between. -/
def OpensBody (before : Tokens) : Prop :=
  opensClassBody before = true ∧
    ∀ (o : Token) (inside : Forest Token) (c : Token) (earlier : Tokens)
      (_ : before = c :: (inside.flatten.reverse ++ o :: earlier)), Matches o inside c →
        ¬(o.tag = .indent ∧ hasColon inside = true ∧ OpensBody earlier)
termination_by before.length
decreasing_by
  subst before
  simp only [List.length_cons, List.length_append]
  omega

/-- The braces of a class body that has no block of its own. -/
def Wrapped (before : Tokens) (o : Token) (inside : Forest Token) (c : Token) : Prop :=
  o.tag = .indent ∧ hasColon inside = true ∧ spellsEmpty o inside c = false ∧ OpensBody before

theorem opensClassBody_eq (t : Token) (before : Tokens) :
    opensClassBody (t :: before) = (t.isClassWord || before.head?.any Token.isClassWord) := by
  cases before <;> simp [opensClassBody, Token.isClassWord]

theorem notClassWord_of_isOpenBrace {t : Token} (opens : t.tag.isOpenBrace = true) :
    t.isClassWord = false := by
  simp [Token.isClassWord, noWord_of_isOpenBrace opens]

theorem notClassWord_of_isCloseBrace {t : Token} (closes : t.tag.isCloseBrace = true) :
    t.isClassWord = false := by
  have other : ∀ tag : Tag, tag.isCloseBrace = true →
      (tag == .classWord || tag == .extendsWord) = false := by
    intro tag
    cases tag <;> decide
  exact other _ closes

/-- Behind a token that closes no pair, only the last two tokens tell. -/
theorem opensBody_cons_iff {t : Token} {before : Tokens}
    (noPair : ∀ o inside earlier, Matches o inside t →
      before ≠ inside.flatten.reverse ++ o :: earlier) :
    OpensBody (t :: before) ↔ opensClassBody (t :: before) = true := by
  rw [OpensBody]
  refine ⟨And.left, fun words => ⟨words, ?_⟩⟩
  rintro o inside c earlier split pair
  obtain ⟨rfl, rfl⟩ := List.cons.inj split
  exact absurd rfl (noPair o inside earlier pair)

/-- Behind a pair, it tells too whether the pair is a body. -/
theorem opensBody_pair_iff {o c : Token} {inside : Forest Token} (pair : Matches o inside c)
    (before : Tokens) :
    OpensBody (c :: (inside.flatten.reverse ++ o :: before)) ↔
      opensClassBody (c :: (inside.flatten.reverse ++ o :: before)) = true ∧
        ¬(o.tag = .indent ∧ hasColon inside = true ∧ OpensBody before) := by
  rw [OpensBody]
  refine and_congr_right fun _ => ⟨fun all => all o inside c before rfl pair, ?_⟩
  intro plain o' inside' c' earlier split pair'
  obtain ⟨rfl, same⟩ := List.cons.inj split
  obtain ⟨rfl, rfl, rfl⟩ := pair.unique_before pair' same
  exact plain

/-! ## What a pair is told -/

/-- The tokens before a place, as the pass has left them, tell a pair what those of the stream
do. -/
structure Told (told before : Tokens) : Prop where
  body : opensClassBody told = true ↔ OpensBody before
  last : told.head?.any Token.isClassWord = before.head?.any Token.isClassWord

namespace Told

variable {told before : Tokens}

theorem start : Told [] [] where
  body := by
    rw [OpensBody]
    simp [opensClassBody]
  last := rfl

/-- One more token that closes no pair. -/
theorem cons (tells : Told told before) {t : Token}
    (noPair : ∀ o inside earlier, Matches o inside t →
      before ≠ inside.flatten.reverse ++ o :: earlier) : Told (t :: told) (t :: before) where
  body := by rw [opensBody_cons_iff noPair, opensClassBody_eq, opensClassBody_eq, tells.last]
  last := rfl

theorem cons_noCloser (tells : Told told before) {t : Token} (other : t.tag.isCloseBrace = false) :
    Told (t :: told) (t :: before) :=
  tells.cons fun _ _ _ pair => by
    have closes := pair.braces.2
    rw [other] at closes
    cases closes

theorem wraps_iff (tells : Told told before) {o : Token} :
    wraps o told = true ↔ o.tag = .indent ∧ OpensBody before := by
  simp only [wraps, Bool.and_eq_true, beq_iff_eq, tells.body]

/-- The word in front of a place is told whatever brace is behind it. -/
theorem head_braces {o p : Token} (opens : o.tag.isOpenBrace = true)
    (opens' : p.tag.isOpenBrace = true) (more earlier earlier' : Tokens) :
    (more ++ o :: earlier).head?.any Token.isClassWord =
      (more ++ p :: earlier').head?.any Token.isClassWord := by
  cases more with
  | nil => simp [notClassWord_of_isOpenBrace opens, notClassWord_of_isOpenBrace opens']
  | cons t more => rfl

/-- A place behind a pair, where what the pass leaves there ends with a brace. -/
theorem of_brace {o c p : Token} {inside : Forest Token} (pair : Matches o inside c)
    (ends : p.tag.isCloseBrace = true) {rest : Tokens}
    (same : rest.head?.any Token.isClassWord = true ↔
      (inside.flatten.reverse ++ o :: before).head?.any Token.isClassWord = true ∧
        ¬(o.tag = .indent ∧ hasColon inside = true ∧ OpensBody before)) :
    Told (p :: rest) (c :: (inside.flatten.reverse ++ o :: before)) := by
  have brace := notClassWord_of_isCloseBrace ends
  have closer := notClassWord_of_isCloseBrace pair.braces.2
  refine ⟨?_, ?_⟩
  · rw [opensBody_pair_iff pair, opensClassBody_eq, opensClassBody_eq, brace, closer,
      Bool.false_or, Bool.false_or, same]
  · rw [List.head?_cons, List.head?_cons, Option.any_some, Option.any_some, brace, closer]

/-- What a place behind a pair is told. -/
theorem pair (tells : Told told before) {o c : Token} {inside : Forest Token}
    (pair : Matches o inside c)
    (inner : Told ((mark (o :: told) inside).flatten.reverse ++ o :: told)
      (inside.flatten.reverse ++ o :: before)) :
    Told ((dress told o inside (mark (o :: told) inside) c).flatten.reverse ++ told)
      (c :: (inside.flatten.reverse ++ o :: before)) := by
  by_cases empty : spellsEmpty o inside c = true
  · obtain ⟨t, rfl, colon, -⟩ := exists_of_spellsEmpty empty
    have shape : (dress told o (.leaf t .nil) (mark (o :: told) (.leaf t .nil)) c).flatten.reverse ++
        told = c.retag .mappingEnd :: o.retag .mappingStart :: told := by
      simp [dress, empty]
    rw [shape]
    refine of_brace pair rfl ?_
    simp [Token.isClassWord, colon]
  · rw [flatten_dress (by simpa using empty)]
    cases colon : hasColon inside with
    | false =>
        simp only [closeBy, openBy, Bool.false_eq_true, if_false, List.reverse_cons, List.reverse_nil,
          List.nil_append, List.singleton_append]
        refine of_brace pair pair.braces.2 ?_
        rw [inner.last]
        exact ⟨fun word => ⟨word, fun body => by cases colon.symm.trans body.2.1⟩, And.left⟩
    | true =>
        have word := head_braces (o := o) (p := o.retag .mappingStart) pair.braces.1 rfl
          (mark (o :: told) inside).flatten.reverse told told
        simp only [closeBy, openBy, closeSide, openSide, if_true]
        cases body : wraps o told with
        | true =>
            obtain ⟨indent, opens⟩ := tells.wraps_iff.1 body
            refine of_brace pair rfl ?_
            simp [Token.isClassWord, indent, colon, opens]
        | false =>
            refine of_brace pair rfl ?_
            have plain : ¬(o.tag = .indent ∧ OpensBody before) := by
              rw [← tells.wraps_iff, body]
              exact Bool.false_ne_true
            simp only [Bool.false_eq_true, if_false, List.append_eq, List.nil_append]
            rw [← word, inner.last]
            exact ⟨fun word => ⟨word, fun body => plain ⟨body.1, body.2.2⟩⟩, And.left⟩

/-- What a place behind a forest is told. -/
theorem forest {forest : Forest Token} (braced : forest.Braced) (tells : Told told before) :
    Told ((mark told forest).flatten.reverse ++ told) (forest.flatten.reverse ++ before) := by
  induction forest generalizing told before with
  | nil => exact tells
  | leaf t next ih =>
      have onward := ih braced.2 (tells.cons_noCloser braced.1.2)
      simpa [mark] using onward
  | pair o inside c next ihInside ihNext =>
      obtain ⟨braces, inner, outer⟩ := braced
      have opened := tells.cons_noCloser (Tag.isCloseBrace_of_isOpenBrace braces.1)
      have onward := ihNext outer (tells.pair ⟨braces, inner⟩ (ihInside inner opened))
      simpa [mark] using onward

end Told

end Braces

end TokenLayout
