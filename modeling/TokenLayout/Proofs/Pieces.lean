/-
# TokenLayout.Proofs.Pieces -- mappings told by the brace matching

What the mapping pass does to each token of a stream is told by how the braces of
that stream match, whatever the pass has done to the tokens around it when it comes
to the token.  So its outcome is put together from pieces, one for each token
(`Piece`): a colon of an empty mapping leaves nothing, a brace whose pair has a colon
directly inside becomes a mapping's, and where the pair is a class body its braces
bring a block with them.  All other tokens stay.

The pass fails where a colon has no pair around it.  Main statement:
`markMappings_by_matching`.
-/
import TokenLayout.Proofs.Matching

namespace TokenLayout.Braces

set_option autoImplicit false

/-! ## Pieces -/

/-- A colon that spells the empty mapping with the tokens on either side of it. -/
def SpellsEmpty (before : Tokens) (t : Token) (after : Tokens) : Prop :=
  t.tag = .colon ∧ ∃ o ∈ before.head?, ∃ c ∈ after.head?, isEmptyMapping o t c = true

/-- The partner of an open brace among the tokens after it. -/
structure PartnerBehind (o : Token) (after : Tokens) (inside : Forest Token) (c : Token) : Prop where
  pair : Matches o inside c
  split : ∃ later, after = inside.flatten ++ c :: later

/-- The partner of a close brace among the tokens before it. -/
structure PartnerBefore (before : Tokens) (c : Token) (earlier : Tokens) (o : Token)
    (inside : Forest Token) : Prop where
  pair : Matches o inside c
  split : before = inside.flatten.reverse ++ o :: earlier

/-- What becomes of the two braces of a pair. -/
inductive Dressed (before : Tokens) (o : Token) (inside : Forest Token) (c : Token) :
    (left right : Tokens) → Prop
  /-- Without a colon directly inside they stay as they are. -/
  | block (noColon : hasColon inside = false) : Dressed before o inside c [o] [c]
  /-- With one they are a mapping's. -/
  | mapping (colon : hasColon inside = true) (plain : ¬Wrapped before o inside c) :
      Dressed before o inside c [o.retag .mappingStart] [c.retag .mappingEnd]
  /-- A class body has a block around it besides. -/
  | body (wrapped : Wrapped before o inside c) :
      Dressed before o inside c
        [Token.generated .indent (o.retag .mappingStart), o.retag .mappingStart]
        [c.retag .mappingEnd, Token.generated .outdent (o.retag .mappingStart)]

/-- What becomes of one token of a stream. -/
inductive Piece (before : Tokens) (t : Token) (after : Tokens) : Tokens → Prop
  | token (noBrace : t.NoBrace) (kept : ¬SpellsEmpty before t after) : Piece before t after [t]
  | emptyColon (empty : SpellsEmpty before t after) : Piece before t after []
  | opener {inside : Forest Token} {c : Token} {left right : Tokens}
      (opens : PartnerBehind t after inside c) (dressed : Dressed before t inside c left right) :
      Piece before t after left
  | closer {earlier : Tokens} {o : Token} {inside : Forest Token} {left right : Tokens}
      (closes : PartnerBefore before t earlier o inside)
      (dressed : Dressed earlier o inside t left right) : Piece before t after right
  /-- A brace without a partner stays. -/
  | lone (brace : ¬t.NoBrace) (unclosed : ∀ inside c, ¬PartnerBehind t after inside c)
      (unopened : ∀ earlier o inside, ¬PartnerBefore before t earlier o inside) :
      Piece before t after [t]

/-- What becomes of these tokens, between those before and those after them. -/
inductive Pieces : (before tokens after out : Tokens) → Prop
  | nil {before after : Tokens} : Pieces before [] after []
  | cons {before rest after piece out : Tokens} {t : Token}
      (first : Piece before t (rest ++ after) piece) (behind : Pieces (t :: before) rest after out) :
      Pieces before (t :: rest) after (piece ++ out)

theorem Pieces.append {before tokens more after out out' : Tokens}
    (first : Pieces before tokens (more ++ after) out)
    (behind : Pieces (tokens.reverse ++ before) more after out') :
    Pieces before (tokens ++ more) after (out ++ out') := by
  induction tokens generalizing before out with
  | nil =>
      cases first
      exact behind
  | cons t rest ih =>
      cases first with
      | @cons _ _ _ piece _ _ one later =>
          have here : Piece before t ((rest ++ more) ++ after) piece := by
            rwa [List.append_assoc]
          rw [List.append_assoc]
          exact .cons here (ih later (by simpa using behind))

/-! ## Each token has one piece -/

theorem Dressed.unique {before left right left' right' : Tokens} {o c : Token}
    {inside : Forest Token} (dressed : Dressed before o inside c left right)
    (dressed' : Dressed before o inside c left' right') : left = left' ∧ right = right' := by
  cases dressed with
  | block noColon =>
      cases dressed' with
      | block => exact ⟨rfl, rfl⟩
      | mapping colon _ => cases noColon.symm.trans colon
      | body wrapped => cases noColon.symm.trans wrapped.2.1
  | mapping colon plain =>
      cases dressed' with
      | block noColon => cases noColon.symm.trans colon
      | mapping => exact ⟨rfl, rfl⟩
      | body wrapped => exact absurd wrapped plain
  | body wrapped =>
      cases dressed' with
      | block noColon => cases noColon.symm.trans wrapped.2.1
      | mapping _ plain => exact absurd wrapped plain
      | body => exact ⟨rfl, rfl⟩

theorem SpellsEmpty.noBrace {before after : Tokens} {t : Token}
    (empty : SpellsEmpty before t after) : t.NoBrace :=
  Token.noBrace_of_colon empty.1

theorem PartnerBehind.not_noBrace {after : Tokens} {o c : Token} {inside : Forest Token}
    (opens : PartnerBehind o after inside c) : ¬o.NoBrace := by
  intro noBrace
  have brace := opens.pair.braces.1
  rw [noBrace.1] at brace
  cases brace

theorem PartnerBefore.not_noBrace {before earlier : Tokens} {o c : Token} {inside : Forest Token}
    (closes : PartnerBefore before c earlier o inside) : ¬c.NoBrace := by
  intro noBrace
  have brace := closes.pair.braces.2
  rw [noBrace.2] at brace
  cases brace

theorem PartnerBehind.not_before {before earlier after : Tokens} {t o c : Token}
    {inside inside' : Forest Token} (opens : PartnerBehind t after inside c)
    (closes : PartnerBefore before t earlier o inside') : False := by
  have brace := Tag.isCloseBrace_of_isOpenBrace opens.pair.braces.1
  rw [closes.pair.braces.2] at brace
  cases brace

theorem Piece.unique {before after piece piece' : Tokens} {t : Token}
    (one : Piece before t after piece) (other : Piece before t after piece') : piece = piece' := by
  cases one with
  | token noBrace kept =>
      cases other with
      | token => rfl
      | emptyColon empty => exact absurd empty kept
      | opener opens _ => exact absurd noBrace opens.not_noBrace
      | closer closes _ => exact absurd noBrace closes.not_noBrace
      | lone => rfl
  | emptyColon empty =>
      cases other with
      | token _ kept => exact absurd empty kept
      | emptyColon => rfl
      | opener opens _ => exact absurd empty.noBrace opens.not_noBrace
      | closer closes _ => exact absurd empty.noBrace closes.not_noBrace
      | lone brace => exact absurd empty.noBrace brace
  | opener opens dressed =>
      cases other with
      | token noBrace _ => exact absurd noBrace opens.not_noBrace
      | emptyColon empty => exact absurd empty.noBrace opens.not_noBrace
      | opener opens' dressed' =>
          obtain ⟨pair, later, split⟩ := opens
          obtain ⟨pair', later', split'⟩ := opens'
          obtain ⟨rfl, rfl, -⟩ := pair.unique_behind pair' (split.symm.trans split')
          exact (dressed.unique dressed').1
      | closer closes _ => exact (opens.not_before closes).elim
      | lone _ unclosed => exact absurd opens (unclosed _ _)
  | closer closes dressed =>
      cases other with
      | token noBrace _ => exact absurd noBrace closes.not_noBrace
      | emptyColon empty => exact absurd empty.noBrace closes.not_noBrace
      | opener opens _ => exact (opens.not_before closes).elim
      | closer closes' dressed' =>
          obtain ⟨rfl, rfl, rfl⟩ :=
            closes.pair.unique_before closes'.pair (closes.split.symm.trans closes'.split)
          exact (dressed.unique dressed').2
      | lone _ _ unopened => exact absurd closes (unopened _ _ _)
  | lone brace unclosed unopened =>
      cases other with
      | token => rfl
      | emptyColon empty => exact absurd empty.noBrace brace
      | opener opens _ => exact absurd opens (unclosed _ _)
      | closer closes _ => exact absurd closes (unopened _ _ _)
      | lone => rfl

/-- The pieces of a stream make one outcome. -/
theorem Pieces.unique {before tokens after out out' : Tokens}
    (one : Pieces before tokens after out) (other : Pieces before tokens after out') :
    out = out' := by
  induction one generalizing out' with
  | nil =>
      cases other
      rfl
  | cons first _ ih =>
      cases other with
      | cons first' behind' => rw [first.unique first', ih behind']

/-! ## The pass by pieces -/

/-- No colon at the surface spells the empty mapping with its neighbours. -/
def NoneEmpty (before : Tokens) (forest : Forest Token) (after : Tokens) : Prop :=
  ∀ (x : Forest Token) (t : Token) (y : Forest Token), forest = x.append (.leaf t y) →
    ¬SpellsEmpty (x.flatten.reverse ++ before) t (y.flatten ++ after)

theorem NoneEmpty.behind_leaf {before after : Tokens} {t : Token} {next : Forest Token}
    (none : NoneEmpty before (.leaf t next) after) : NoneEmpty (t :: before) next after := by
  rintro x u y rfl
  simpa using none (.leaf t x) u y rfl

theorem NoneEmpty.behind_pair {before after : Tokens} {o c : Token} {inside next : Forest Token}
    (none : NoneEmpty before (.pair o inside c next) after) :
    NoneEmpty (c :: (inside.flatten.reverse ++ o :: before)) next after := by
  rintro x u y rfl
  simpa using none (.pair o inside c x) u y rfl

/-- Only a colon alone between two braces does. -/
theorem noneEmpty_inside {o c : Token} {inside : Forest Token} (pair : Matches o inside c)
    (notEmpty : spellsEmpty o inside c = false) (before after : Tokens) :
    NoneEmpty (o :: before) inside (c :: after) := by
  rintro x t y rfl ⟨colon, u, last, w, first, empty⟩
  obtain ⟨front, back⟩ := pair.braced.of_append
  obtain ⟨opens, closes⟩ := braces_of_isEmptyMapping empty
  -- braces next to the colon are those of the pair itself, for the others nest
  have left : x = .nil ∧ o = u := by
    cases ends : x.flatten.reverse with
    | nil =>
        rw [ends] at last
        exact ⟨Forest.flatten_eq_nil_iff.1 (List.reverse_eq_nil_iff.1 ends), Option.some.inj last⟩
    | cons p more =>
        rw [ends] at last
        obtain rfl := Option.some.inj last
        have surface := mem_surface_of_last (Forest.Braced.loose front)
          (by rw [← List.head?_reverse, ends]; rfl) opens
        rw [(front.surface surface).1] at opens
        cases opens
  have right : y = .nil ∧ c = w := by
    cases starts : y.flatten with
    | nil =>
        rw [starts] at first
        exact ⟨Forest.flatten_eq_nil_iff.1 starts, Option.some.inj first⟩
    | cons p more =>
        rw [starts] at first
        obtain rfl := Option.some.inj first
        have surface := mem_surface_of_head (Forest.Braced.loose back.2) (by rw [starts]; rfl) closes
        rw [(back.2.surface surface).2] at closes
        cases closes
  obtain ⟨rfl, rfl⟩ := left
  obtain ⟨rfl, rfl⟩ := right
  have alone : spellsEmpty o (.leaf t .nil) c = true := by simp [spellsEmpty, colon, empty]
  rw [Forest.append, alone] at notEmpty
  cases notEmpty

/-- A dressed pair is put together from the pieces of its braces and of what lies between. -/
theorem exists_dressed {told before after : Tokens} (tells : Told told before) {o c : Token}
    {inside : Forest Token} (pair : Matches o inside c)
    (within : NoneEmpty (o :: before) inside (c :: after) →
      Pieces (o :: before) inside.flatten (c :: after) (mark (o :: told) inside).flatten) :
    ∃ left between right, Dressed before o inside c left right ∧
      Pieces (o :: before) inside.flatten (c :: after) between ∧
      (dress told o inside (mark (o :: told) inside) c).flatten = left ++ (between ++ right) := by
  by_cases empty : spellsEmpty o inside c = true
  · obtain ⟨t, rfl, colon, spelled⟩ := exists_of_spellsEmpty empty
    have nothing : Pieces (o :: before) [t] (c :: after) ([] ++ []) :=
      .cons (.emptyColon ⟨colon, o, rfl, c, rfl, spelled⟩) .nil
    have plain : ¬Wrapped before o (.leaf t .nil) c := by
      rintro ⟨-, -, notEmpty, -⟩
      cases empty.symm.trans notEmpty
    have has : hasColon (.leaf t .nil) = true := by simp [colon]
    exact ⟨_, _, _, .mapping has plain, nothing, by simp [dress, empty]⟩
  · have notEmpty : spellsEmpty o inside c = false := by simpa using empty
    have between := within (noneEmpty_inside pair notEmpty before after)
    cases colon : hasColon inside with
    | false =>
        exact ⟨_, _, _, .block colon, between, by simp [dress, notEmpty, colon]⟩
    | true =>
        by_cases body : wraps o told = true
        · have wrapped : Wrapped before o inside c :=
            have word := tells.wraps_iff.1 body
            ⟨word.1, colon, notEmpty, word.2⟩
          exact ⟨_, _, _, .body wrapped, between,
            by simp [dress, notEmpty, colon, body]⟩
        · have plain : ¬Wrapped before o inside c :=
            fun wrapped => body (tells.wraps_iff.2 ⟨wrapped.1, wrapped.2.2.2⟩)
          exact ⟨_, _, _, .mapping colon plain, between,
            by simp [dress, notEmpty, colon, body]⟩

/-- The pieces of a pair. -/
theorem pieces_pair {told before after : Tokens} (tells : Told told before) {o c : Token}
    {inside : Forest Token} (pair : Matches o inside c)
    (within : NoneEmpty (o :: before) inside (c :: after) →
      Pieces (o :: before) inside.flatten (c :: after) (mark (o :: told) inside).flatten) :
    Pieces before (o :: (inside.flatten ++ [c])) after
      (dress told o inside (mark (o :: told) inside) c).flatten := by
  obtain ⟨left, between, right, dressed, inner, whole⟩ := exists_dressed tells pair within
  have opener : Piece before o (inside.flatten ++ [c] ++ after) left :=
    .opener ⟨pair, after, by simp⟩ dressed
  have closer : Pieces (inside.flatten.reverse ++ o :: before) [c] after (right ++ []) :=
    .cons (.closer ⟨pair, rfl⟩ dressed) .nil
  rw [List.append_nil] at closer
  rw [whole]
  exact .cons opener (inner.append closer)

/-- A pair and what stands behind it. -/
theorem pieces_cons_pair {told before after out : Tokens} (tells : Told told before) {o c : Token}
    {inside next : Forest Token} (pair : Matches o inside c)
    (within : ∀ after, NoneEmpty (o :: before) inside after →
      Pieces (o :: before) inside.flatten after (mark (o :: told) inside).flatten)
    (behind : Pieces (c :: (inside.flatten.reverse ++ o :: before)) next.flatten after out) :
    Pieces before (Forest.pair o inside c next).flatten after
      ((dress told o inside (mark (o :: told) inside) c).flatten ++ out) := by
  have cut : (Forest.pair o inside c next).flatten =
      (o :: (inside.flatten ++ [c])) ++ next.flatten := by
    simp
  rw [cut]
  exact (pieces_pair tells pair (within _)).append (by simpa using behind)

/-- The pieces of a forest. -/
theorem pieces_braced {forest : Forest Token} (braced : forest.Braced) {told before after : Tokens}
    (tells : Told told before) (none : NoneEmpty before forest after) :
    Pieces before forest.flatten after (mark told forest).flatten := by
  induction forest generalizing told before after with
  | nil => exact .nil
  | leaf t next ih =>
      have kept : ¬SpellsEmpty before t (next.flatten ++ after) := none .nil t next rfl
      have here : Piece before t (next.flatten ++ after) [t] := .token braced.1 kept
      exact .cons here (ih braced.2 (tells.cons_noCloser braced.1.2) none.behind_leaf)
  | pair o inside c next ihInside ihNext =>
      obtain ⟨braces, inner, outer⟩ := braced
      have pair : Matches o inside c := ⟨braces, inner⟩
      have opened := tells.cons_noCloser (Tag.isCloseBrace_of_isOpenBrace braces.1)
      rw [mark, Forest.flatten_append]
      exact pieces_cons_pair tells pair (fun _ none => ihInside inner opened none)
        (ihNext outer (tells.pair pair (opened.forest inner)) none.behind_pair)

/-- A brace at the surface has no partner: behind an open one there is no closer left. -/
theorem not_partnerBehind_of_surface {o c : Token} {inside later : Forest Token}
    (loose : later.Loose)
    (facing : ∀ u ∈ later.surface, ¬(o.tag.isOpenBrace = true ∧ u.tag.isCloseBrace = true)) :
    ¬PartnerBehind o later.flatten inside c := by
  rintro ⟨pair, beyond, split⟩
  have noCloser : ∀ u ∈ later.surface, u.tag.isCloseBrace = false := by
    intro u member
    simpa [pair.braces.1] using facing u member
  have found := closeBrace?_inside pair.braced pair.braces.2 beyond
  rw [← split, closeBrace?_surface loose noCloser] at found
  cases found

/-- And before a close brace there is no opener left. -/
theorem not_partnerBefore_of_surface {o c : Token} {inside front : Forest Token} {earlier : Tokens}
    (loose : front.Loose)
    (facing : ∀ u ∈ front.surface, ¬(u.tag.isOpenBrace = true ∧ c.tag.isCloseBrace = true)) :
    ¬PartnerBefore front.flatten.reverse c earlier o inside := by
  rintro ⟨pair, split⟩
  have noOpener : ∀ u ∈ front.surface, u.tag.isOpenBrace = false := by
    intro u member
    simpa [pair.braces.2] using facing u member
  have found := openBrace?_inside pair.braced pair.braces.1 earlier
  rw [← split, openBrace?_surface loose noOpener] at found
  cases found

/-- The pieces of a stream without a colon at the surface. -/
theorem pieces_loose {front forest : Forest Token} (loose : front.Loose) (loose' : forest.Loose)
    (facing : (front.append forest).Facing) (noColon : hasColon forest = false) {told : Tokens}
    (tells : Told told front.flatten.reverse) :
    Pieces front.flatten.reverse forest.flatten [] (mark told forest).flatten := by
  induction forest generalizing front told with
  | nil => exact .nil
  | leaf t next ih =>
      obtain ⟨other, later⟩ : t.tag ≠ .colon ∧ hasColon next = false := by
        simpa using noColon
      obtain ⟨-, behind, across⟩ := Forest.facing_append_iff.1 facing
      have unopened : ∀ earlier o inside, ¬PartnerBefore front.flatten.reverse t earlier o inside :=
        fun _ _ _ => not_partnerBefore_of_surface loose fun u member => across u member t (.head _)
      have here : Piece front.flatten.reverse t (next.flatten ++ []) [t] := by
        by_cases noBrace : t.NoBrace
        · exact .token noBrace fun empty => other empty.1
        · refine .lone noBrace (fun inside c => ?_) unopened
          rw [List.append_nil]
          exact not_partnerBehind_of_surface loose' fun u member =>
            (List.pairwise_cons.1 behind).1 u member
      have whole : front.append (.leaf t next) = (front.append (.leaf t .nil)).append next := by
        rw [Forest.append_assoc]
        rfl
      have flat : (front.append (.leaf t .nil)).flatten.reverse = t :: front.flatten.reverse := by
        simp
      rw [whole] at facing
      have last : (Forest.leaf t .nil).Loose := trivial
      have told' : Told (t :: told) (t :: front.flatten.reverse) :=
        tells.cons fun o inside earlier pair split => unopened earlier o inside ⟨pair, split⟩
      rw [← flat] at told'
      have onward := ih (loose.append last) loose' facing later told'
      rw [flat] at onward
      exact .cons here onward
  | pair o inside c next _ ih =>
      obtain ⟨braces, inner, outer⟩ := loose'
      have pair : Matches o inside c := ⟨braces, inner⟩
      have opened := tells.cons_noCloser (Tag.isCloseBrace_of_isOpenBrace braces.1)
      have whole : front.append (.pair o inside c next) =
          (front.append (.pair o inside c .nil)).append next := by
        rw [Forest.append_assoc]
        rfl
      have flat : (front.append (.pair o inside c .nil)).flatten.reverse =
          c :: (inside.flatten.reverse ++ o :: front.flatten.reverse) := by
        simp
      rw [whole] at facing
      have last : (Forest.pair o inside c .nil).Loose := ⟨braces, inner, trivial⟩
      have told' := tells.pair pair (opened.forest inner)
      rw [← flat] at told'
      have onward := ih (loose.append last) outer facing noColon told'
      rw [flat] at onward
      rw [mark, Forest.flatten_append]
      exact pieces_cons_pair tells pair (fun _ none => pieces_braced inner opened none) onward

/-! ## Colons without a pair -/

/-- The place is between the two braces of a pair. -/
def Enclosed (before after : Tokens) : Prop :=
  ∃ (o c : Token) (x y : Forest Token) (earlier later : Tokens), o.Braces c ∧ x.Braced ∧ y.Braced ∧
    before = x.flatten.reverse ++ o :: earlier ∧ after = y.flatten ++ c :: later

/-- An open brace is pending at the place. -/
def Pending (before : Tokens) : Prop :=
  ∃ (o : Token) (x : Forest Token) (earlier : Tokens), o.tag.isOpenBrace = true ∧ x.Braced ∧
    before = x.flatten.reverse ++ o :: earlier

/-- The first colon of the stream without a pair around it. -/
structure FirstBare (tokens before : Tokens) (t : Token) (after : Tokens) : Prop where
  split : tokens = before.reverse ++ t :: after
  colon : t.tag = .colon
  bare : ¬Enclosed before after
  first : ∀ front u mid, before.reverse = front ++ u :: mid → u.tag = .colon →
    Enclosed front.reverse (mid ++ t :: after)

/-- Both searches find a brace. -/
theorem Enclosed.found {before after : Tokens} (enclosed : Enclosed before after) :
    (openBrace? before).isSome = true ∧ (closeBrace? after).isSome = true := by
  obtain ⟨o, c, x, y, earlier, later, ⟨opens, closes⟩, front, back, rfl, rfl⟩ := enclosed
  rw [openBrace?_inside front opens, closeBrace?_inside back closes]
  exact ⟨rfl, rfl⟩

/-- A colon of a loose forest that is not at the surface is between two braces. -/
theorem enclosed_of_noColon {forest : Forest Token} (loose : forest.Loose)
    (noColon : hasColon forest = false) {front back : Tokens} {t : Token}
    (split : forest.flatten = front ++ t :: back) (colon : t.tag = .colon) :
    Enclosed front.reverse back := by
  rcases cases_colon loose colon split with ⟨x, y, rfl, -, -⟩ |
    ⟨left, o, x, y, c, right, holds, rfl, rfl⟩
  · rw [hasColon_append] at noColon
    simp [colon] at noColon
  · obtain ⟨braces, braced⟩ := loose.of_holds holds
    obtain ⟨front, back⟩ := braced.of_append
    exact ⟨o, c, x, y, left.reverse, right, braces, front, back.2, by simp, rfl⟩

/-- Where an open brace is pending at the surface, no close brace is left there. -/
theorem noCloser_of_facing {front later : Forest Token} {t u : Token}
    (facing : (front.append (.leaf t later)).Facing) (member : u ∈ front.surface)
    (opens : u.tag.isOpenBrace = true) : ∀ w ∈ later.surface, w.tag.isCloseBrace = false := by
  intro w there
  obtain ⟨-, -, across⟩ := Forest.facing_append_iff.1 facing
  simpa [opens] using across u member w (.tail _ there)

/-- One at the surface is not. -/
theorem bare_of_surface {front later : Forest Token} {t : Token} (loose : front.Loose)
    (loose' : later.Loose) (facing : (front.append (.leaf t later)).Facing) :
    ¬Enclosed front.flatten.reverse later.flatten := by
  intro enclosed
  obtain ⟨left, right⟩ := enclosed.found
  by_cases opener : ∃ u ∈ front.surface, u.tag.isOpenBrace = true
  · obtain ⟨u, member, opens⟩ := opener
    rw [closeBrace?_surface loose' (noCloser_of_facing facing member opens)] at right
    cases right
  · have noOpener : ∀ u ∈ front.surface, u.tag.isOpenBrace = false := by simpa using opener
    rw [openBrace?_surface loose noOpener] at left
    cases left

/-- A loose forest without braces at its surface nests. -/
theorem braced_of_surface {forest : Forest Token} (loose : forest.Loose)
    (noBrace : ∀ u ∈ forest.surface, u.NoBrace) : forest.Braced := by
  induction forest with
  | nil => trivial
  | leaf t next ih =>
      exact ⟨noBrace t (.head _), ih loose fun u member => noBrace u (.tail _ member)⟩
  | pair o inside c next _ ih => exact ⟨loose.1, loose.2.1, ih loose.2.2 noBrace⟩

/-- The last open brace at the surface. -/
theorem exists_last_opener {forest : Forest Token} (loose : forest.Loose)
    (opener : ∃ u ∈ forest.surface, u.tag.isOpenBrace = true) :
    ∃ (front : Forest Token) (o : Token) (later : Forest Token),
      forest = front.append (.leaf o later) ∧ o.tag.isOpenBrace = true ∧ later.Loose ∧
        ∀ w ∈ later.surface, w.tag.isOpenBrace = false := by
  induction forest with
  | nil =>
      obtain ⟨u, member, -⟩ := opener
      cases member
  | leaf t next ih =>
      by_cases more : ∃ w ∈ next.surface, w.tag.isOpenBrace = true
      · obtain ⟨front, o, later, rfl, found⟩ := ih loose more
        exact ⟨.leaf t front, o, later, rfl, found⟩
      · have last : ∀ w ∈ next.surface, w.tag.isOpenBrace = false := by simpa using more
        obtain ⟨u, member, opens⟩ := opener
        rcases List.mem_cons.1 member with rfl | later
        · exact ⟨.nil, u, next, rfl, opens, loose, last⟩
        · exact absurd ⟨u, later, opens⟩ more
  | pair o inside c next _ ih =>
      obtain ⟨front, o', later, rfl, found⟩ := ih loose.2.2 opener
      exact ⟨.pair o inside c front, o', later, rfl, found⟩

/-- An open brace is pending behind a loose forest just if one lies at its surface. -/
theorem pending_iff {forest : Forest Token} (loose : forest.Loose) (facing : forest.Facing) :
    Pending forest.flatten.reverse ↔ ∃ u ∈ forest.surface, u.tag.isOpenBrace = true := by
  constructor
  · rintro ⟨o, x, earlier, opens, braced, split⟩
    by_cases opener : ∃ u ∈ forest.surface, u.tag.isOpenBrace = true
    · exact opener
    · exfalso
      have noOpener : ∀ u ∈ forest.surface, u.tag.isOpenBrace = false := by simpa using opener
      have found := openBrace?_inside braced opens earlier
      rw [← split, openBrace?_surface loose noOpener] at found
      cases found
  · intro opener
    obtain ⟨front, o, later, rfl, opens, loose', noOpener⟩ := exists_last_opener loose opener
    have noCloser : ∀ w ∈ later.surface, w.tag.isCloseBrace = false := by
      obtain ⟨-, behind, -⟩ := Forest.facing_append_iff.1 facing
      intro w member
      simpa [opens] using (List.pairwise_cons.1 behind).1 w member
    have braced := braced_of_surface loose' fun w member => ⟨noOpener w member, noCloser w member⟩
    exact ⟨o, later, front.flatten.reverse, opens, braced,
      by simp⟩

/-- A colon with an open brace pending before it, and no close brace behind it. -/
theorem visit_unclosed {before : Tokens} {later : Forest Token} {t : Token} (colon : t.tag = .colon)
    (pending : Pending before) (loose : later.Loose)
    (noCloser : ∀ w ∈ later.surface, w.tag.isCloseBrace = false) :
    visit before t later.flatten = .error (.unmatchedMappingClose t.reportedAt) := by
  have notEmpty : ∀ u ∈ before.head?, ∀ w ∈ later.flatten.head?,
      isEmptyMapping u t w = false := by
    intro u _ w first
    refine isEmptyMapping_eq_false (fun braces => ?_) t
    have opened := noCloser w (mem_surface_of_head loose first braces.2)
    rw [braces.2] at opened
    cases opened
  obtain ⟨o, x, earlier, opens, braced, rfl⟩ := pending
  rw [visit_colon colon notEmpty]
  simp [markMapping, openBrace?_inside braced opens, closeBrace?_surface loose noCloser, Except.map]

/-- The fault of a colon at the surface. -/
def Faults (before : Tokens) (t : Token) (fault : Fault) : Prop :=
  (Pending before ∧ fault = .unmatchedMappingClose t.reportedAt) ∨
    (¬Pending before ∧ fault = .unmatchedMappingOpen t.reportedAt)

/-- The pass fails at the first colon at the surface. -/
theorem exists_firstBare {forest : Forest Token} (loose : forest.Loose) (facing : forest.Facing)
    (colon : hasColon forest = true) :
    ∃ before t after fault, FirstBare forest.flatten before t after ∧ Faults before t fault ∧
      markMappings forest.flatten = .error fault := by
  obtain ⟨front, t, later, rfl, tag, noColon, loose', rest⟩ := exists_first_colon loose colon
  have flat : (front.append (.leaf t later)).flatten = front.flatten ++ t :: later.flatten := by
    rw [Forest.flatten_append, Forest.flatten]
  have bare : FirstBare (front.append (.leaf t later)).flatten front.flatten.reverse t
      later.flatten := by
    refine ⟨by rw [flat, List.reverse_reverse], tag, bare_of_surface loose' rest facing, ?_⟩
    intro first u mid split word
    rw [List.reverse_reverse] at split
    obtain ⟨o, c, x, y, earlier, beyond, braces, inner, outer, same, rfl⟩ :=
      enclosed_of_noColon loose' noColon split word
    exact ⟨o, c, x, y, earlier, beyond ++ t :: later.flatten, braces, inner, outer, same, by simp⟩
  obtain ⟨apart, -⟩ := Forest.facing_append_iff.1 facing
  have pends := pending_iff loose' apart
  rw [flat] at bare ⊢
  by_cases opener : ∃ u ∈ front.surface, u.tag.isOpenBrace = true
  · obtain ⟨u, member, opens⟩ := id opener
    have marked : Pending (mark [] front).flatten.reverse := by
      refine (pending_iff (mark_loose loose' []) ?_).2 ?_
      · rw [Forest.Facing, surface_mark]
        exact apart
      · rwa [surface_mark]
    exact ⟨_, t, _, _, bare, .inl ⟨pends.2 opener, rfl⟩, markMappings_stops loose' noColon
      (visit_unclosed tag marked rest (noCloser_of_facing facing member opens))⟩
  · have noOpener : ∀ u ∈ front.surface, u.tag.isOpenBrace = false := by simpa using opener
    exact ⟨_, t, _, _, bare, .inr ⟨fun pending => opener (pends.1 pending), rfl⟩,
      markMappings_unopened loose' noColon tag noOpener _⟩

/-- There is only one first colon. -/
theorem FirstBare.unique {tokens before before' after after' : Tokens} {t t' : Token}
    (first : FirstBare tokens before t after) (first' : FirstBare tokens before' t' after') :
    before = before' ∧ t = t' := by
  have order : ∀ {before before' after after' : Tokens} {t t' : Token},
      FirstBare tokens before t after → FirstBare tokens before' t' after' →
        ∀ mid, before'.reverse = before.reverse ++ t :: mid → after ≠ mid ++ t' :: after' := by
    rintro before before' after after' t t' first first' mid extends_ rfl
    have enclosed := first'.first before.reverse t mid extends_ first.colon
    rw [List.reverse_reverse] at enclosed
    exact first.bare enclosed
  -- of two first colons neither comes before the other
  have same := first.split.symm.trans first'.split
  rcases split_cases same with ⟨front, here, -⟩ | ⟨mid, longer, later⟩ | ⟨mid, longer, later⟩
  · exact ⟨List.reverse_inj.1 front, here⟩
  · exact absurd later (order first first' mid longer)
  · exact absurd later (order first' first mid longer)

theorem Faults.unique {before : Tokens} {t : Token} {fault fault' : Fault}
    (faults : Faults before t fault) (faults' : Faults before t fault') : fault = fault' := by
  rcases faults with ⟨pending, rfl⟩ | ⟨none, rfl⟩ <;>
    rcases faults' with ⟨pending', rfl⟩ | ⟨none', rfl⟩
  · rfl
  · exact absurd pending none'
  · exact absurd pending' none
  · rfl

/-- **The pass in terms of the brace matching.**  It fails just if a colon has no pair around it,
and then the first such colon is at fault: no open brace is pending before it, or none behind it
closes the one that is.  If all have a pair, the outcome is put together from the pieces of the
tokens. -/
theorem markMappings_by_matching (tokens : Tokens) :
    (∀ fault, markMappings tokens = .error fault ↔
      ∃ before t after, FirstBare tokens before t after ∧ Faults before t fault) ∧
    ∀ out, markMappings tokens = .ok out ↔
      (∀ front t back, tokens = front ++ t :: back → t.tag = .colon → Enclosed front.reverse back) ∧
        Pieces [] tokens [] out := by
  obtain ⟨forest, loose, facing, rfl⟩ := exists_loose tokens
  cases colon : hasColon forest with
  | true =>
      obtain ⟨before, t, after, fault, bare, faults, failed⟩ :=
        exists_firstBare loose facing colon
      rw [failed]
      refine ⟨fun fault' => ⟨?_, ?_⟩, fun out => ⟨nofun, ?_⟩⟩
      · intro same
        obtain rfl := Except.error.inj same
        exact ⟨before, t, after, bare, faults⟩
      · rintro ⟨before', t', after', bare', faults'⟩
        obtain ⟨rfl, rfl⟩ := bare.unique bare'
        rw [faults.unique faults']
      · rintro ⟨enclosed, -⟩
        have around := enclosed _ _ _ bare.split bare.colon
        rw [List.reverse_reverse] at around
        exact absurd around bare.bare
  | false =>
      have nothing : Forest.Loose (.nil : Forest Token) := trivial
      have pieces := pieces_loose nothing loose facing colon .start
      rw [markMappings_eq_mark loose colon]
      refine ⟨fun fault => ⟨nofun, ?_⟩, fun out => ⟨?_, ?_⟩⟩
      · rintro ⟨before, t, after, bare, -⟩
        have around := enclosed_of_noColon loose colon bare.split bare.colon
        rw [List.reverse_reverse] at around
        exact absurd around bare.bare
      · intro done
        obtain rfl := Except.ok.inj done
        exact ⟨fun front t back => enclosed_of_noColon loose colon, pieces⟩
      · rintro ⟨-, others⟩
        rw [pieces.unique others]

/-- A class body that ends with a class word, and behind it a mapping with an empty one in it. -/
def bodyThenMapping : Tokens :=
  [.onFirstLine .classWord 0, .onFirstLineAs .indent "\x7b" 1, .onFirstLineAs .identifier "a" 2,
   .onFirstLine .colon 3, .onFirstLine .classWord 4, .onFirstLineAs .outdent "\x7d" 5,
   .onFirstLineAs .indent "\x7b" 6, .onFirstLineAs .identifier "b" 7, .onFirstLine .colon 8,
   .onFirstLineAs .indent "\x7b" 9, .onFirstLine .colon 10, .onFirstLineAs .outdent "\x7d" 11,
   .onFirstLineAs .outdent "\x7d" 12]

/-- A mapping that is not closed. -/
def openMapping : Tokens :=
  [.onFirstLineAs .indent "\x7b" 0, .onFirstLineAs .identifier "a" 1, .onFirstLine .colon 2]

theorem markMappings_by_matching_bodyThenMapping :
    (∃ out, markMappings bodyThenMapping = .ok out ∧
      out.map Token.tag = [.classWord, .indent, .mappingStart, .identifier, .colon, .classWord,
        .mappingEnd, .outdent, .mappingStart, .identifier, .colon, .mappingStart, .mappingEnd,
        .mappingEnd] ∧
      Pieces [] bodyThenMapping [] out) ∧
    ∃ before t after, FirstBare openMapping before t after ∧
      Faults before t (.unmatchedMappingClose (.point ⟨0, 2⟩)) := by
  obtain ⟨out, done, tags⟩ : ∃ out, markMappings bodyThenMapping = .ok out ∧
      out.map Token.tag = [.classWord, .indent, .mappingStart, .identifier, .colon, .classWord,
        .mappingEnd, .outdent, .mappingStart, .identifier, .colon, .mappingStart, .mappingEnd,
        .mappingEnd] := ⟨_, rfl, rfl⟩
  have failed : markMappings openMapping = .error (.unmatchedMappingClose (.point ⟨0, 2⟩)) := rfl
  exact ⟨⟨out, done, tags, (((markMappings_by_matching bodyThenMapping).2 out).1 done).2⟩,
    ((markMappings_by_matching openMapping).1 _).1 failed⟩

end TokenLayout.Braces
