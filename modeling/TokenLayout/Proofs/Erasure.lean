/-
# TokenLayout.Proofs.Erasure -- closing undoes erasing

A lexer leaves the dedicated closers of calls and indexes out of a stream.  An
`Erasure` says how, token by token, over the stream that has them all: a
dedicated closer is kept, weakened to the plain `)` or `]`, or dropped.  Not every
closer may be dropped (`Erasure.permitted`):

* the next token that survives has to be a closer that does not close the same
  kind of construct, or there is none;
* the closer of an index is not dropped inside a call.

The call pass runs while closers of indexes are still missing.  It meets none
missing inside a call, so every call region is level when the call is reached,
and the index pass then finds every call closed.

Both passes are one argument (`closeOnto_mended`): over the forest of the whole
stream, from the last opener to the first, each pass puts its closers back into a
stream in which those of the stages before are back (`mended`).
-/
import TokenLayout.Pass
import TokenLayout.Proofs.Closers

namespace TokenLayout

set_option autoImplicit false

open Closers

/-- What becomes of a token when a stream is erased. -/
inductive Fate where
  | keep
  /-- A plain closer takes the place of a dedicated one. -/
  | weaken
  | drop
  deriving DecidableEq

/-- A stream with what becomes of each of its tokens. -/
abbrev Erasure := List (Token × Fate)

namespace Erasure

/-- The stream before it is erased. -/
def source (erasure : Erasure) : Tokens :=
  erasure.map Prod.fst

/-- What is left of a token. -/
def survivor : Token × Fate → Option Token
  | (t, .keep) => some t
  | (t, .weaken) => some (t.retag (plain t.tag))
  | (_, .drop) => none

/-- The erased stream. -/
def erased (erasure : Erasure) : Tokens :=
  erasure.filterMap survivor

/-- A token may have this fate, given the openers pending before it and the next
token that survives. -/
def allowed (opened : Tokens) (next : Option Token) : Token × Fate → Bool
  | (_, .keep) => true
  | (t, .weaken) => t.tag == .callEnd || t.tag == .indexEnd
  | (t, .drop) =>
      match t.tag with
      | .callEnd => next.all fun n => n.tag.isCloser && n.tag != .parenEnd && n.tag != .callEnd
      | .indexEnd =>
          (next.all fun n => n.tag.isCloser && n.tag != .bracketEnd && n.tag != .indexEnd) &&
            !opened.any fun o => o.tag == .callStart
      | _ => false

/-- Every token of the rest of a stream may have its fate, given the openers
pending before it. -/
def permittedFrom (opened : Tokens) : Erasure → Bool
  | [] => true
  | (t, fate) :: later =>
      allowed opened (erased later).head? (t, fate) && permittedFrom (pend opened t) later

/-- Every token of a stream may have its fate. -/
def permitted (erasure : Erasure) : Bool :=
  permittedFrom [] erasure

/-- The stream with a generated closer in the place of each one dropped, caused by
the opener that it closes. -/
def restoredFrom (opened : Tokens) : Erasure → Tokens
  | [] => []
  | (t, fate) :: later =>
      (if fate = .drop then Token.generated t.tag (opened.headD default) else t) ::
        restoredFrom (pend opened t) later

def restored (erasure : Erasure) : Tokens :=
  restoredFrom [] erasure

theorem source_append (left right : Erasure) :
    source (left ++ right) = source left ++ source right :=
  List.map_append

theorem erased_append (left right : Erasure) :
    erased (left ++ right) = erased left ++ erased right :=
  List.filterMap_append

theorem permittedFrom_append (opened : Tokens) (left right : Erasure)
    (ok : permittedFrom opened (left ++ right) = true) :
    permittedFrom ((source left).foldl pend opened) right = true := by
  induction left generalizing opened with
  | nil => exact ok
  | cons first left ih =>
      obtain ⟨t, fate⟩ := first
      simp only [List.cons_append, permittedFrom, Bool.and_eq_true] at ok
      exact ih _ ok.2

theorem restoredFrom_append (opened : Tokens) (left right : Erasure) :
    restoredFrom opened (left ++ right) =
      restoredFrom opened left ++ restoredFrom ((source left).foldl pend opened) right := by
  induction left generalizing opened with
  | nil => rfl
  | cons first left ih =>
      obtain ⟨t, fate⟩ := first
      simp only [List.cons_append, restoredFrom, ih]
      rfl

/-! ## Erased forests -/

/-- A balanced forest in which only dedicated closers are weakened or dropped. -/
def Erasable (forest : Forest (Token × Fate)) : Prop :=
  forest.Nests (fun a => a.1.Alone ∧ a.2 = .keep) fun o c =>
    o.1.Partners c.1 ∧ o.2 = .keep ∧ (c.2 ≠ .keep → c.1.tag = .callEnd ∨ c.1.tag = .indexEnd)

theorem tag_of_allowed {opened : Tokens} {next : Option Token} {a : Token × Fate}
    (ok : allowed opened next a = true) (changed : a.2 ≠ .keep) :
    a.1.tag = .callEnd ∨ a.1.tag = .indexEnd := by
  obtain ⟨t, fate⟩ := a
  cases fate with
  | keep => exact absurd rfl changed
  | weaken => simpa [allowed] using ok
  | drop =>
      simp only [allowed] at ok
      split at ok
      · rename_i tag; exact .inl tag
      · rename_i tag; exact .inr tag
      · cases ok

theorem allowed_of_permittedFrom {opened : Tokens} {erasure : Erasure}
    (ok : permittedFrom opened erasure = true) {i : Nat} {a : Token × Fate}
    (at_ : erasure[i]? = some a) :
    allowed ((source (erasure.take i)).foldl pend opened)
      (erased (erasure.drop (i + 1))).head? a = true := by
  induction erasure generalizing opened i with
  | nil => simp at at_
  | cons first later ih =>
      simp only [permittedFrom, Bool.and_eq_true] at ok
      cases i with
      | zero =>
          obtain rfl : first = a := by simpa using at_
          exact ok.1
      | succ i => exact ih ok.2 at_

theorem keep_of_not_closer {opened : Tokens} {next : Option Token} {a : Token × Fate}
    (ok : allowed opened next a = true) (notCloser : a.1.tag.isCloser = false) :
    a.2 = .keep := by
  by_cases changed : a.2 = .keep
  · exact changed
  · rcases tag_of_allowed ok changed with tag | tag <;> rw [tag] at notCloser <;> cases notCloser

/-- The forest of a permitted erasure is erasable. -/
theorem erasable_of_permittedFrom {forest : Forest (Token × Fate)}
    (balanced : (forest.map Prod.fst).Balanced) {opened : Tokens} {more : Erasure}
    (ok : permittedFrom opened (forest.flatten ++ more) = true) : Erasable forest := by
  induction forest generalizing opened more with
  | nil => trivial
  | leaf a next ih =>
      obtain ⟨alone, later⟩ := balanced
      simp only [Forest.flatten, List.cons_append, permittedFrom, Bool.and_eq_true] at ok
      exact ⟨⟨alone, keep_of_not_closer ok.1 alone.2⟩, ih later ok.2⟩
  | pair o inside c next ihInside ihNext =>
      obtain ⟨partners, inner, later⟩ := balanced
      simp only [Forest.flatten, List.cons_append, List.append_assoc, permittedFrom,
        Bool.and_eq_true] at ok
      have rest := permittedFrom_append _ _ _ ok.2
      simp only [permittedFrom, Bool.and_eq_true] at rest
      exact ⟨⟨partners, keep_of_not_closer ok.1 (Tag.isCloser_of_isOpener partners.1),
        tag_of_allowed rest.1⟩, ihInside inner ok.2, ihNext later rest.2⟩

/-! ## The stages

A stage is named by the closers that are back: none, those of calls, and those of
calls and indexes. -/

/-- The token in the place of a closer once the closers `back` are back. -/
def standIn (back : List Tag) (opener : Token) (closer : Token × Fate) : Token :=
  if closer.1.tag ∈ back then
    if closer.2 = .drop then Token.generated closer.1.tag opener else closer.1
  else if closer.2 = .weaken then closer.1.retag (plain closer.1.tag)
  else closer.1

/-- What stands in the place of a closer once the closers `back` are back. -/
def mend (back : List Tag) (opener : Token) (closer : Token × Fate) : Tokens :=
  if closer.2 = .drop ∧ closer.1.tag ∉ back then [] else [standIn back opener closer]

/-- An erased forest once the closers `back` are back. -/
def mended (back : List Tag) : Forest (Token × Fate) → Tokens
  | .nil => []
  | .leaf a next => a.1 :: mended back next
  | .pair opener inside closer next =>
      opener.1 :: (mended back inside ++ (mend back opener.1 closer ++ mended back next))

/-- At first nothing is back. -/
theorem mended_nil {forest : Forest (Token × Fate)} (erasable : Erasable forest) :
    mended [] forest = erased forest.flatten := by
  induction forest with
  | nil => rfl
  | leaf a next ih =>
      obtain ⟨t, fate⟩ := a
      obtain ⟨⟨-, kept⟩, later⟩ := erasable
      cases kept
      simp [mended, erased, survivor, ih later]
  | pair o inside c next ihInside ihNext =>
      obtain ⟨t, fate⟩ := o
      obtain ⟨⟨-, kept, -⟩, inner, later⟩ := erasable
      cases kept
      have closer : mend [] t c = erased [c] := by
        cases c with | mk u fate => cases fate <;> simp [mend, standIn, erased, survivor]
      rw [mended, ihInside inner, ihNext later, closer]
      simp only [Forest.flatten, ← erased_append]
      rfl

/-- An erasable stretch leaves the openers before it as they were. -/
theorem foldl_pend_source {forest : Forest (Token × Fate)} (erasable : Erasable forest)
    (opened : Tokens) : (source forest.flatten).foldl pend opened = opened := by
  have level : (forest.map Prod.fst).Level :=
    (Forest.nests_map _ _).2 (erasable.mono (fun _ h => h.1) fun _ _ h => h.1.brackets)
  rw [source, ← Forest.flatten_map, foldl_pend_flatten level]

/-- In the end every closer is back. -/
theorem mended_all {forest : Forest (Token × Fate)} (erasable : Erasable forest)
    {back : List Tag} (calls : .callEnd ∈ back) (indexes : .indexEnd ∈ back)
    (opened : Tokens) : mended back forest = restoredFrom opened forest.flatten := by
  induction forest generalizing opened with
  | nil => rfl
  | leaf a next ih =>
      obtain ⟨t, fate⟩ := a
      obtain ⟨⟨-, kept⟩, later⟩ := erasable
      cases kept
      simp [mended, restoredFrom, ih later (pend opened t)]
  | pair o inside c next ihInside ihNext =>
      obtain ⟨t, fate⟩ := o
      obtain ⟨u, last⟩ := c
      obtain ⟨⟨partners, kept, dedicated⟩, inner, later⟩ := erasable
      cases kept
      have within := foldl_pend_source inner (t :: opened)
      have closer : mend back t (u, last) =
          [if last = .drop then Token.generated u.tag t else u] := by
        by_cases changed : last = .keep
        · simp [mend, standIn, changed]
        · have isBack : u.tag ∈ back := by
            rcases dedicated changed with tag | tag
            · rw [show u.tag = .callEnd from tag]; exact calls
            · rw [show u.tag = .indexEnd from tag]; exact indexes
          simp [mend, standIn, isBack]
      simp only [mended, Forest.flatten, restoredFrom, restoredFrom_append,
        pend_opener partners.1, within, closer]
      rw [ihInside inner (t :: opened), ihNext later (pend (t :: opened) u)]
      simp

/-! ## One pass -/

/-- No closer but those of `construct` is missing. -/
def Complete (construct : Construct) (back : List Tag) (forest : Forest (Token × Fate)) : Prop :=
  ∀ a ∈ forest.flatten, a.2 = .drop → a.1.tag ∈ construct.closer :: back

/-- The forest of a stream from which nothing is missing. -/
def settled (back : List Tag) : Forest (Token × Fate) → Forest Token
  | .nil => .nil
  | .leaf a next => .leaf a.1 (settled back next)
  | .pair opener inside closer next =>
      .pair opener.1 (settled back inside) (standIn back opener.1 closer) (settled back next)

theorem flatten_settled {construct : Construct} {back : List Tag}
    {forest : Forest (Token × Fate)} (complete : Complete construct back forest) :
    (settled (construct.closer :: back) forest).flatten =
      mended (construct.closer :: back) forest := by
  induction forest with
  | nil => rfl
  | leaf a next ih =>
      have later : Complete construct back next := fun b h => complete b (.tail _ h)
      simp only [settled, Forest.flatten, mended, ih later]
  | pair o inside c next ihInside ihNext =>
      have inner : Complete construct back inside := fun b h =>
        complete b (by simp [h])
      have later : Complete construct back next := fun b h =>
        complete b (by simp [h])
      have there : ¬ (c.2 = .drop ∧ c.1.tag ∉ construct.closer :: back) := by
        rintro ⟨dropped, missing⟩
        exact missing (complete c (by simp) dropped)
      simp only [settled, Forest.flatten, mended, mend, if_neg there, ihInside inner,
        ihNext later, List.singleton_append]

/-- Whatever stands in for a closer is a closer. -/
theorem standIn_brackets {back : List Tag} {o : Token} {c : Token × Fate}
    (partners : o.Partners c.1)
    (dedicated : c.2 ≠ .keep → c.1.tag = .callEnd ∨ c.1.tag = .indexEnd) :
    o.Brackets (standIn back o c) := by
  unfold standIn
  split
  · split
    · exact partners.brackets
    · exact partners.brackets
  · split
    · rename_i weakened
      rcases dedicated (by rw [weakened]; decide) with tag | tag <;> rw [tag] <;>
        exact ⟨partners.1, rfl⟩
    · exact partners.brackets

theorem standIn_groups {back : List Tag} (calls : .callEnd ∈ back) {o : Token}
    {c : Token × Fate} (partners : o.Partners c.1)
    (dedicated : c.2 ≠ .keep → c.1.tag = .callEnd ∨ c.1.tag = .indexEnd) :
    Groups o (standIn back o c) := by
  have own : Groups o c.1 := ⟨partners.brackets, (partners.tag_iff rfl).2⟩
  unfold standIn
  split
  · split
    · exact own
    · exact own
  · rename_i missing
    split
    · rename_i weakened
      rcases dedicated (by rw [weakened]; decide) with tag | tag
      · rw [tag] at missing
        exact absurd calls missing
      · rw [tag]
        exact ⟨⟨partners.1, rfl⟩, by intro h; cases h⟩
    · exact own

theorem settled_groups {back : List Tag} (calls : .callEnd ∈ back)
    {forest : Forest (Token × Fate)} (erasable : Erasable forest) :
    (settled back forest).Nests Token.Alone Groups := by
  induction forest with
  | nil => trivial
  | leaf a next ih => exact ⟨erasable.1.1, ih erasable.2⟩
  | pair o inside c next ihInside ihNext =>
      obtain ⟨⟨partners, -, dedicated⟩, inner, later⟩ := erasable
      exact ⟨standIn_groups calls partners dedicated, ihInside inner, ihNext later⟩

/-- Each construct of a kind can be closed once the closers `back` are back, with
`tail` after the forest: nothing else is missing inside it, and where its own
closer was dropped the stream goes on with some other closer. -/
def Closable (construct : Construct) (back : List Tag) :
    Forest (Token × Fate) → (tail : Tokens) → Prop
  | .nil, _ => True
  | .leaf _ next, tail => Closable construct back next tail
  | .pair opener inside closer next, tail =>
      Closable construct back inside
          (mend back opener.1 closer ++ (mended (construct.closer :: back) next ++ tail)) ∧
        Closable construct back next tail ∧
        (opener.1.tag = construct.opener → Complete construct back inside ∧
          (closer.2 = .drop →
            Leaves construct.own (mended (construct.closer :: back) next ++ tail)))

/-- A closed construct whose closer was kept, weakened or dropped has it back. -/
theorem closeOne_mend {construct : Construct} (regular : construct.Regular)
    {inside : Forest Token} (groups : inside.Nests Token.Alone Groups) {back : List Tag}
    (fresh : construct.closer ∉ back) (before : Tokens) {after : Tokens} {o : Token}
    {c : Token × Fate}
    (opens : o.tag = construct.opener) (closes : c.1.tag = construct.closer)
    (leaves : c.2 = .drop → Leaves construct.own after) :
    closeOne construct before o (inside.flatten ++ (mend back o c ++ after)) =
      .ok (inside.flatten ++ (mend (construct.closer :: back) o c ++ after)) := by
  have level : inside.Level := groups.mono (fun _ h => h) fun _ _ h => h.1
  obtain ⟨t, fate⟩ := c
  simp only at closes
  have isBack : t.tag ∈ construct.closer :: back := by simp [closes]
  have missing : t.tag ∉ back := by rwa [closes]
  have stops : ∀ u : Token, u.tag ∈ construct.own → u.retag construct.closer = t →
      closeOne construct before o (inside.flatten ++ u :: after) =
        .ok (inside.flatten ++ t :: after) := by
    intro u own same
    have notOutdent : u.tag ≠ .outdent := fun h => regular.notOutdent (h ▸ own)
    rw [closeOne_of_stop regular.atClosers level (regular.ends_own own) notOutdent, same]
  cases fate with
  | keep =>
      have same : t.retag construct.closer = t := by rw [← closes]; rfl
      have kept := stops t (by simp [closes]) same
      simpa [mend, standIn] using kept
  | weaken =>
      have same : (t.retag (plain t.tag)).retag construct.closer = t := by rw [← closes]; rfl
      have weakened := stops _ (by simp [closes]) same
      simpa [mend, standIn, isBack, missing] using weakened
  | drop =>
      have yields : construct.Yields (inside.flatten.reverse ++ o :: before) after :=
        regular.yields groups opens (leaves rfl)
      have dropped := closeOne_of_yields regular.atClosers level yields
      rw [← closes] at dropped
      simpa [mend, standIn, isBack, missing] using dropped

/-- A closer opens nothing, so it is passed. -/
theorem closeOnto_mend {construct : Construct} (regular : construct.Regular) {back : List Tag}
    {o : Token} {c : Token × Fate} (partners : o.Partners c.1)
    (dedicated : c.2 ≠ .keep → c.1.tag = .callEnd ∨ c.1.tag = .indexEnd)
    (before closed : Tokens) :
    closeOnto construct before (mend back o c) closed = .ok (mend back o c ++ closed) := by
  unfold mend
  split
  · rfl
  · refine closeOnto_cons_other ?_ rfl
    intro tag
    have closes : (standIn back o c).tag.isCloser = true := (standIn_brackets partners dedicated).2
    rw [tag, Tag.isCloser_of_isOpener regular.opens] at closes
    cases closes

/-- **One pass puts its closers back.** -/
theorem closeOnto_mended {construct : Construct} (regular : construct.Regular)
    {back : List Tag} (fresh : construct.closer ∉ back)
    (calls : .callEnd ∈ construct.closer :: back) {forest : Forest (Token × Fate)}
    (erasable : Erasable forest) {tail : Tokens} (closable : Closable construct back forest tail)
    (before : Tokens) :
    closeOnto construct before (mended back forest) tail =
      .ok (mended (construct.closer :: back) forest ++ tail) := by
  induction forest generalizing before tail with
  | nil => rfl
  | leaf a next ih =>
      obtain ⟨⟨alone, -⟩, later⟩ := erasable
      have other : a.1.tag ≠ construct.opener := by
        intro tag
        have opens := alone.1
        rw [tag] at opens
        rw [regular.opens] at opens
        cases opens
      exact closeOnto_cons_other other (ih later closable _)
  | pair o inside c next ihInside ihNext =>
      obtain ⟨⟨partners, -, dedicated⟩, inner, later⟩ := erasable
      obtain ⟨closableInside, closableNext, closableHere⟩ := closable
      -- from the right: what is behind the pair, then its closer and inside, at last the opener
      have doneNext := ihNext later closableNext
        ((mend back o.1 c).reverse ++ ((mended back inside).reverse ++ o.1 :: before))
      have doneCloser : closeOnto construct ((mended back inside).reverse ++ o.1 :: before)
          (mend back o.1 c ++ mended back next) tail =
            .ok (mend back o.1 c ++ (mended (construct.closer :: back) next ++ tail)) := by
        rw [closeOnto_append doneNext]
        exact closeOnto_mend regular partners dedicated _ _
      have doneInside := ihInside inner closableInside (o.1 :: before)
      rw [← closeOnto_append doneCloser] at doneInside
      by_cases opens : o.1.tag = construct.opener
      · obtain ⟨complete, leaves⟩ := closableHere opens
        have closes : c.1.tag = construct.closer := (partners.tag_iff regular.partner).1 opens
        have one := closeOne_mend regular (settled_groups calls inner) fresh before opens closes
          leaves
        rw [flatten_settled complete] at one
        have done := closeOnto_cons_opener opens doneInside one
        simpa [mended] using done
      · have foreign : c.1.tag ≠ construct.closer := by
          intro closes
          exact opens ((partners.tag_iff regular.partner).2 closes)
        have same : mend (construct.closer :: back) o.1 c = mend back o.1 c := by
          simp [mend, standIn, foreign]
        have done := closeOnto_cons_other opens doneInside
        simpa [mended, same] using done

/-! ## What is permitted can be closed -/

/-- A stream leaves at a closer, whatever stands in for it. -/
theorem leaves_mend {own back : List Tag} {o : Token} {c : Token × Fate} {later : Erasure}
    {after : Tokens} (known : ∀ tag ∈ back, tag.isCloser = true ∧ tag ∉ own)
    (link : Leaves own (erased later) → Leaves own after)
    (leaves : Leaves own (erased (c :: later))) : Leaves own (mend back o c ++ after) := by
  obtain ⟨t, fate⟩ := c
  by_cases isBack : t.tag ∈ back
  · intro n head
    obtain ⟨closes, foreign⟩ := known _ isBack
    have same : n = if fate = .drop then Token.generated t.tag o else t := by
      simpa [mend, standIn, isBack, eq_comm] using head
    rw [same]
    split
    · exact ⟨closes, foreign⟩
    · exact ⟨closes, foreign⟩
  · cases fate with
    | keep => simpa [mend, standIn, isBack, Leaves, erased, survivor] using leaves
    | weaken => simpa [mend, standIn, isBack, Leaves, erased, survivor] using leaves
    | drop =>
        have passed : Leaves own after := link leaves
        simpa [mend, isBack] using passed

/-- A stream leaves after a forest only if the forest is empty. -/
theorem leaves_mended {own back : List Tag} {forest : Forest (Token × Fate)}
    (erasable : Erasable forest) {more : Erasure} {tail : Tokens}
    (link : Leaves own (erased more) → Leaves own tail)
    (leaves : Leaves own (erased (forest.flatten ++ more))) :
    Leaves own (mended back forest ++ tail) := by
  cases forest with
  | nil => exact link leaves
  | leaf a next =>
      obtain ⟨t, fate⟩ := a
      obtain ⟨⟨alone, kept⟩, -⟩ := erasable
      cases kept
      have closes := (leaves t rfl).1
      rw [show t.tag.isCloser = false from alone.2] at closes
      cases closes
  | pair o inside c next =>
      obtain ⟨t, fate⟩ := o
      obtain ⟨⟨partners, kept, -⟩, -⟩ := erasable
      cases kept
      have closes := (leaves t rfl).1
      rw [show t.tag.isCloser = false from Tag.isCloser_of_isOpener partners.1] at closes
      cases closes

/-- In a permitted erasure each construct can be closed, if what is back closes
nothing of its kind, a dropped closer of its kind leaves the stream at some other
closer, and nothing else is missing inside one. -/
theorem closable_of_permittedFrom {construct : Construct} {back : List Tag}
    (known : ∀ tag ∈ back, tag.isCloser = true ∧ tag ∉ construct.own)
    (partner : construct.opener.partner? = some construct.closer)
    (drops : ∀ {opened : Tokens} {next : Tokens} {t : Token}, t.tag = construct.closer →
      allowed opened next.head? (t, .drop) = true → Leaves construct.own next)
    (complete : ∀ {o : Token} {inside : Forest (Token × Fate)} {opened : Tokens} {more : Erasure},
      o.tag = construct.opener → Erasable inside →
        permittedFrom (o :: opened) (inside.flatten ++ more) = true →
          Complete construct back inside)
    {forest : Forest (Token × Fate)} (erasable : Erasable forest) {opened : Tokens}
    {more : Erasure} (ok : permittedFrom opened (forest.flatten ++ more) = true)
    {tail : Tokens} (link : Leaves construct.own (erased more) → Leaves construct.own tail) :
    Closable construct back forest tail := by
  induction forest generalizing opened more tail with
  | nil => trivial
  | leaf a next ih =>
      simp only [Forest.flatten, List.cons_append, permittedFrom, Bool.and_eq_true] at ok
      exact ih erasable.2 ok.2 link
  | pair o inside c next ihInside ihNext =>
      obtain ⟨⟨partners, -, -⟩, inner, later⟩ := erasable
      simp only [Forest.flatten, List.cons_append, List.append_assoc, permittedFrom,
        Bool.and_eq_true] at ok
      have rest := permittedFrom_append _ _ _ ok.2
      simp only [permittedFrom, Bool.and_eq_true] at rest
      -- what is erased behind the pair is told as it will be when this pass comes to the opener
      have onward : Leaves construct.own (erased (next.flatten ++ more)) →
          Leaves construct.own (mended (construct.closer :: back) next ++ tail) :=
        leaves_mended later link
      refine ⟨ihInside inner ok.2 (leaves_mend known onward), ihNext later rest.2 link, ?_⟩
      intro opens
      have closes : c.1.tag = construct.closer := (partners.tag_iff partner).1 opens
      have within := ok.2
      rw [pend_opener partners.1] at within
      refine ⟨complete opens inner within, fun dropped => onward ?_⟩
      have alive : allowed ((source inside.flatten).foldl pend (pend opened o.1))
          (erased (next.flatten ++ more)).head? (c.1, .drop) = true := by
        rw [← dropped]
        exact rest.1
      exact drops closes alive

/-- Inside a call only closers of calls are dropped. -/
theorem tag_of_drop_in_call {forest : Forest (Token × Fate)} (erasable : Erasable forest)
    {opened : Tokens} (inCall : ∃ o ∈ opened, o.tag = .callStart) {more : Erasure}
    (ok : permittedFrom opened (forest.flatten ++ more) = true) :
    ∀ a ∈ forest.flatten, a.2 = .drop → a.1.tag = .callEnd := by
  induction forest generalizing opened more with
  | nil => intro a member; cases member
  | leaf first next ih =>
      obtain ⟨⟨alone, kept⟩, later⟩ := erasable
      simp only [Forest.flatten, List.cons_append, permittedFrom, Bool.and_eq_true] at ok
      rw [pend_alone alone] at ok
      intro a member dropped
      rcases List.mem_cons.1 member with rfl | inNext
      · rw [kept] at dropped; cases dropped
      · exact ih later inCall ok.2 a inNext dropped
  | pair o inside c next ihInside ihNext =>
      obtain ⟨⟨partners, kept, dedicated⟩, inner, later⟩ := erasable
      obtain ⟨p, member, call⟩ := inCall
      simp only [Forest.flatten, List.cons_append, List.append_assoc, permittedFrom,
        Bool.and_eq_true, pend_opener partners.1] at ok
      have rest := permittedFrom_append _ _ _ ok.2
      rw [foldl_pend_source inner] at rest
      simp only [permittedFrom, Bool.and_eq_true, pend_closer partners.brackets.2,
        List.tail_cons] at rest
      intro a inPair dropped
      simp only [Forest.flatten, List.mem_cons, List.mem_append] at inPair
      rcases inPair with rfl | within | rfl | after
      · rw [kept] at dropped; cases dropped
      · exact ihInside inner ⟨p, .tail _ member, call⟩ ok.2 a within dropped
      · rcases dedicated (by rw [dropped]; decide) with tag | tag
        · exact tag
        · exfalso
          obtain ⟨t, fate⟩ := a
          cases dropped
          have alive := rest.1
          simp only [allowed, show t.tag = .indexEnd from tag, Bool.and_eq_true] at alive
          have none : ((o.1 :: opened).any fun q => q.tag == .callStart) = true :=
            List.any_eq_true.2 ⟨p, .tail _ member, by simp [call]⟩
          simp [none] at alive
      · exact ihNext later ⟨p, member, call⟩ rest.2 a after dropped

theorem closable_call {forest : Forest (Token × Fate)} (erasable : Erasable forest)
    (ok : permittedFrom [] forest.flatten = true) : Closable call [] forest [] := by
  have whole : permittedFrom [] (forest.flatten ++ []) = true := by simpa using ok
  refine closable_of_permittedFrom (by simp) rfl ?_ ?_ erasable whole id
  · intro opened next t tag alive n head
    simp only [allowed, show t.tag = .callEnd from tag, Option.all_eq_true,
      Bool.and_eq_true, bne_iff_ne] at alive
    obtain ⟨⟨closes, notParen⟩, notCall⟩ := alive n head
    exact ⟨closes, by simp [call, plain, notParen, notCall]⟩
  · intro o inside opened more opens inner within a member dropped
    have tag := tag_of_drop_in_call inner ⟨o, .head _, opens⟩ within a member dropped
    simp [call, tag]

theorem closable_index {forest : Forest (Token × Fate)} (erasable : Erasable forest)
    (ok : permittedFrom [] forest.flatten = true) : Closable index [.callEnd] forest [] := by
  have whole : permittedFrom [] (forest.flatten ++ []) = true := by simpa using ok
  refine closable_of_permittedFrom (by simp; decide) rfl ?_ ?_ erasable whole id
  · intro opened next t tag alive n head
    simp only [allowed, show t.tag = .indexEnd from tag, Option.all_eq_true,
      Bool.and_eq_true, bne_iff_ne] at alive
    obtain ⟨⟨closes, notBracket⟩, notIndex⟩ := alive.1 n head
    exact ⟨closes, by simp [index, plain, notBracket, notIndex]⟩
  · intro o inside opened more opens inner within a member dropped
    rcases inner.mem member with alone | ⟨c, -, kept, -⟩ | ⟨o', -, -, dedicated⟩
    · rw [alone.2] at dropped; cases dropped
    · rw [kept] at dropped; cases dropped
    · rcases dedicated (by rw [dropped]; decide) with tag | tag <;> simp [index, tag]

/-! ## Both passes -/

/-- The two passes put every closer back. -/
theorem close_restored {erasure : Erasure} (balanced : ensureBalance erasure.source = .ok ())
    (ok : erasure.permitted = true) :
    ∃ called, close call erasure.erased = .ok called ∧
      close index called = .ok erasure.restored := by
  obtain ⟨above, aboveBalanced, flat⟩ := (ensureBalance_iff_forest _).1 balanced
  obtain ⟨forest, rfl, mapped⟩ := Forest.exists_map_eq Prod.fst above erasure flat.symm
  rw [← mapped] at aboveBalanced
  have whole : permittedFrom [] (forest.flatten ++ []) = true := by simpa [permitted] using ok
  have erasable : Erasable forest := erasable_of_permittedFrom aboveBalanced whole
  have calls := closeOnto_mended call_regular (by simp) (by simp [call]) erasable
    (closable_call erasable ok) []
  have indexes := closeOnto_mended index_regular (by simp [index]) (by simp) erasable
    (closable_index erasable ok) []
  refine ⟨mended [.callEnd] forest, ?_, ?_⟩
  · rw [close, ← mended_nil erasable, calls, List.append_nil]
    rfl
  · rw [close, indexes, List.append_nil, restored,
      mended_all erasable (by simp) (by simp [index]) []]

/-- The token survives, under its own tag or as the plain closer for a dedicated one. -/
def Spared (a : Token × Fate) : Prop :=
  a.2 = .keep ∨ a.2 = .weaken ∧ (a.1.tag = .callEnd ∨ a.1.tag = .indexEnd)

theorem permittedFrom_of_spared {erasure : Erasure} (spared : ∀ a ∈ erasure, Spared a)
    (opened : Tokens) : permittedFrom opened erasure = true := by
  induction erasure generalizing opened with
  | nil => rfl
  | cons first later ih =>
      obtain ⟨t, fate⟩ := first
      have onward := ih (fun a member => spared a (.tail _ member)) (pend opened t)
      rcases spared _ (.head _) with kept | ⟨weakened, tag⟩
      · cases kept
        simp [permittedFrom, allowed, onward]
      · cases weakened
        simpa [permittedFrom, allowed, onward] using tag

theorem restoredFrom_of_spared {erasure : Erasure} (spared : ∀ a ∈ erasure, Spared a)
    (opened : Tokens) : restoredFrom opened erasure = erasure.source := by
  induction erasure generalizing opened with
  | nil => rfl
  | cons first later ih =>
      obtain ⟨t, fate⟩ := first
      have onward := ih (fun a member => spared a (.tail _ member)) (pend opened t)
      have survives : fate ≠ .drop := by
        rintro rfl
        rcases spared _ (.head _) with kept | ⟨weakened, -⟩
        · cases kept
        · cases weakened
      simp [restoredFrom, survives, onward, source]

/-- Where nothing is dropped, the two passes give back the stream that was erased. -/
theorem close_spared {erasure : Erasure} (balanced : ensureBalance erasure.source = .ok ())
    (spared : ∀ a ∈ erasure, Spared a) :
    ∃ called, close call erasure.erased = .ok called ∧ close index called = .ok erasure.source := by
  have restored := close_restored balanced (permittedFrom_of_spared spared [])
  rwa [Erasure.restored, restoredFrom_of_spared spared] at restored

/-- Each token that survived is what it was, and each one dropped is generated
again because of the opener it closes. -/
theorem getElem?_restoredFrom (opened : Tokens) (erasure : Erasure) {i : Nat} {t : Token}
    {fate : Fate} (at_ : erasure[i]? = some (t, fate)) :
    (restoredFrom opened erasure)[i]? = some (if fate = .drop then
      Token.generated t.tag ((((source erasure).take i).foldl pend opened).headD default)
      else t) := by
  induction erasure generalizing opened i with
  | nil => simp at at_
  | cons first later ih =>
      obtain ⟨u, other⟩ := first
      cases i with
      | zero =>
          obtain ⟨rfl, rfl⟩ : u = t ∧ other = fate := by simpa using at_
          rfl
      | succ i => exact ih (pend opened u) at_

theorem map_tag_restoredFrom (opened : Tokens) (erasure : Erasure) :
    (restoredFrom opened erasure).map Token.tag = (source erasure).map Token.tag := by
  induction erasure generalizing opened with
  | nil => rfl
  | cons first later ih =>
      obtain ⟨t, fate⟩ := first
      have tag : (if fate = .drop then Token.generated t.tag (opened.headD default) else t).tag =
          t.tag := by split <;> rfl
      simp only [restoredFrom, List.map_cons, source, tag, ih (pend opened t)]

/-- **Closing undoes erasing.**  However the closers of calls and indexes were
erased from a balanced stream, the two passes give it back: every token that
survived is what it was, and in the place of every closer dropped stands a
generated one, caused by the opener it closes. -/
theorem closing_undoes_erasing (erasure : Erasure)
    (balanced : ensureBalance erasure.source = .ok ()) (ok : erasure.permitted = true) :
    ∃ called closed,
      Pass.closeCalls.apply erasure.erased = .ok called ∧
        Pass.closeIndexes.apply called = .ok closed ∧
        closed.map Token.tag = erasure.source.map Token.tag ∧
        ∀ i t fate, erasure[i]? = some (t, fate) →
          (fate ≠ .drop → closed[i]? = some t) ∧
            (fate = .drop → ∃ opener, (pending (erasure.source.take i)).head? = some opener ∧
              opener.tag.partner? = some t.tag ∧
              closed[i]? = some (Token.generated t.tag opener)) := by
  obtain ⟨called, calls, indexes⟩ := close_restored balanced ok
  refine ⟨called, erasure.restored, calls, indexes, map_tag_restoredFrom [] erasure, ?_⟩
  intro i t fate at_
  have stands := getElem?_restoredFrom [] erasure at_
  refine ⟨fun survives => by rw [restored, stands, if_neg survives], ?_⟩
  rintro rfl
  have inSource : erasure.source[i]? = some t := by
    rw [source, List.getElem?_map, at_]
    rfl
  have closes : t.tag.isCloser = true := by
    have dropped := allowed_of_permittedFrom ok at_
    rcases tag_of_allowed dropped (fun same => by cases same) with tag | tag <;>
      exact (congrArg Tag.isCloser tag).trans rfl
  obtain ⟨opener, outer, pends, partner⟩ := pending_of_checkBalance balanced inSource closes
  refine ⟨opener, by rw [pending, pends]; rfl, partner, ?_⟩
  rw [restored, stands, pends]
  rfl

/-- Two calls and an index that one dedent ends.  The group in the inner call and
the plain `)` of the third call are no ends of the outer ones. -/
def sharedDedent : Erasure :=
  [(.onFirstLine .indent 0, .keep), (.onFirstLine .indexStart 1, .keep),
   (.onFirstLine .callStart 2, .keep), (.onFirstLine .callStart 3, .keep),
   (.bare .callEnd, .weaken), (.onFirstLine .callStart 5, .keep),
   (.onFirstLine .parenStart 6, .keep), (.onFirstLine .parenEnd 7, .keep),
   (.bare .callEnd, .drop), (.bare .callEnd, .drop), (.bare .indexEnd, .drop),
   (.onFirstLine .outdent 11, .keep)]

theorem closing_undoes_erasing_sharedDedent :
    ensureBalance sharedDedent.source = .ok () ∧ sharedDedent.permitted = true ∧
      ∃ called closed,
        Pass.closeCalls.apply sharedDedent.erased = .ok called ∧
          Pass.closeIndexes.apply called = .ok closed ∧
          closed.map Token.tag = sharedDedent.source.map Token.tag ∧
          ∀ i t fate, sharedDedent[i]? = some (t, fate) →
            (fate ≠ .drop → closed[i]? = some t) ∧
              (fate = .drop →
                ∃ opener, (pending (sharedDedent.source.take i)).head? = some opener ∧
                  opener.tag.partner? = some t.tag ∧
                  closed[i]? = some (Token.generated t.tag opener)) :=
  ⟨rfl, by decide, closing_undoes_erasing sharedDedent rfl (by decide)⟩

end Erasure

end TokenLayout
