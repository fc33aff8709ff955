/-
# TokenLayout.Proofs.Mappings -- what the mapping pass makes of nested braces

The pass visits one colon after another and edits the stream on both sides of it.
Its outcome, though, is a function of how the braces nest: `mark` dresses each
pair by what lies between its braces.  A pair with a colon directly inside becomes
a mapping, and where the tokens before it open a class, a mapping in a block
(`dress`).  A pair that spells the empty mapping loses its colon.

The walk agrees with `mark` because the pairs inside a pair do not mind that it is
dressed while they are passed (`mark_congr`): what they are told of the tokens
before them is whether a class word is among the last two.

Main statements: `markMappings_eq_mark` for a stream without a colon at the
surface, and `markMappings_fails` for any other.
-/
import TokenLayout.Proofs.Braces
import TokenLayout.Proofs.Walks

namespace TokenLayout.Braces

set_option autoImplicit false

/-! ## Dressing pairs -/

/-- There is a colon at the surface. -/
def hasColon (forest : Forest Token) : Bool :=
  forest.surface.any fun t => t.tag == .colon

@[simp] theorem hasColon_nil : hasColon .nil = false := rfl

@[simp] theorem hasColon_leaf (t : Token) (later : Forest Token) :
    hasColon (.leaf t later) = (t.tag == .colon || hasColon later) := rfl

@[simp] theorem hasColon_pair (o : Token) (inside : Forest Token) (c : Token)
    (later : Forest Token) : hasColon (.pair o inside c later) = hasColon later := rfl

@[simp] theorem hasColon_append (forest after : Forest Token) :
    hasColon (forest.append after) = (hasColon forest || hasColon after) := by
  rw [hasColon, Forest.surface_append, List.any_append, hasColon, hasColon]

theorem braces_of_isEmptyMapping {o t c : Token} (empty : isEmptyMapping o t c = true) :
    o.Braces c := by
  simp only [isEmptyMapping, Bool.and_eq_true] at empty
  exact ⟨empty.1.1.1.1, empty.1.2⟩

theorem isEmptyMapping_eq_false {o c : Token} (apart : ¬o.Braces c) (t : Token) :
    isEmptyMapping o t c = false :=
  Bool.eq_false_iff.2 fun empty => apart (braces_of_isEmptyMapping empty)

/-- A pair that spells the empty mapping. -/
def spellsEmpty (o : Token) (inside : Forest Token) (c : Token) : Bool :=
  match inside with
  | .leaf t .nil => t.tag == .colon && isEmptyMapping o t c
  | _ => false

theorem exists_of_spellsEmpty {o c : Token} {inside : Forest Token}
    (empty : spellsEmpty o inside c = true) :
    ∃ t, inside = .leaf t .nil ∧ t.tag = .colon ∧ isEmptyMapping o t c = true := by
  unfold spellsEmpty at empty
  split at empty
  · rename_i t
    exact ⟨t, rfl, by simpa using empty⟩
  · cases empty

/-- A mapping that opens here is the body of a class and has no block of its own. -/
def wraps (o : Token) (before : Tokens) : Bool :=
  o.tag == .indent && opensClassBody before

/-- A pair after the pass, with what then lies between its braces. -/
def dress (before : Tokens) (o : Token) (inside inner : Forest Token) (c : Token) :
    Forest Token :=
  let brace := o.retag .mappingStart
  let mapping (between : Forest Token) := Forest.pair brace between (c.retag .mappingEnd) .nil
  if spellsEmpty o inside c then mapping .nil
  else if hasColon inside then
    if wraps o before then
      .pair (.generated .indent brace) (mapping inner) (.generated .outdent brace) .nil
    else mapping inner
  else .pair o inner c .nil

/-- A forest after the pass, given the tokens before it, nearest first. -/
def mark (before : Tokens) : Forest Token → Forest Token
  | .nil => .nil
  | .leaf t next => .leaf t (mark (t :: before) next)
  | .pair o inside c next =>
      let piece := dress before o inside (mark (o :: before) inside) c
      piece.append (mark (piece.flatten.reverse ++ before) next)

theorem mark_append (before : Tokens) (forest after : Forest Token) :
    mark before (forest.append after) =
      (mark before forest).append
        (mark ((mark before forest).flatten.reverse ++ before) after) := by
  induction forest generalizing before with
  | nil => rfl
  | leaf t next ih =>
      simp only [Forest.append, mark, ih, Forest.flatten, List.reverse_cons, List.append_assoc,
        List.singleton_append]
  | pair o inside c next _ ih =>
      simp only [Forest.append, mark, ih, Forest.append_assoc, Forest.flatten_append,
        List.reverse_append, List.append_assoc]

theorem dress_braced {before : Tokens} {o c : Token} {inside inner : Forest Token}
    (braces : o.Braces c) (braced : inner.Braced) : (dress before o inside inner c).Braced := by
  have mapping : ∀ between : Forest Token, between.Braced →
      (Forest.pair (o.retag .mappingStart) between (c.retag .mappingEnd) .nil).Braced :=
    fun between nested => ⟨⟨rfl, rfl⟩, nested, trivial⟩
  simp only [dress]
  split
  · exact mapping .nil trivial
  · split
    · split
      · exact ⟨⟨rfl, rfl⟩, mapping inner braced, trivial⟩
      · exact mapping inner braced
    · exact ⟨braces, braced, trivial⟩

theorem mark_braced {forest : Forest Token} (braced : forest.Braced) (before : Tokens) :
    (mark before forest).Braced := by
  induction forest generalizing before with
  | nil => trivial
  | leaf t next ih => exact ⟨braced.1, ih braced.2 _⟩
  | pair o inside c next ihInside ihNext =>
      obtain ⟨braces, inner, outer⟩ := braced
      exact Forest.nests_append (dress_braced braces (ihInside inner _)) (ihNext outer _)

theorem mark_loose {forest : Forest Token} (loose : forest.Loose) (before : Tokens) :
    (mark before forest).Loose := by
  induction forest generalizing before with
  | nil => trivial
  | leaf t next ih => exact ih loose _
  | pair o inside c next _ ih =>
      obtain ⟨braces, inner, outer⟩ := loose
      exact (dress_braced braces (mark_braced inner _)).loose.append (ih outer _)

/-- A pair becomes one pair. -/
theorem exists_dress_eq (before : Tokens) (o c : Token) (inside inner : Forest Token) :
    ∃ o' inner' c', dress before o inside inner c = .pair o' inner' c' .nil := by
  simp only [dress]
  split
  · exact ⟨_, _, _, rfl⟩
  · split
    · split <;> exact ⟨_, _, _, rfl⟩
    · exact ⟨_, _, _, rfl⟩

theorem surface_dress (before : Tokens) (o c : Token) (inside inner : Forest Token) :
    (dress before o inside inner c).surface = [] := by
  obtain ⟨o', inner', c', pair⟩ := exists_dress_eq before o c inside inner
  rw [pair]
  rfl

/-- The pass changes nothing at the surface. -/
theorem surface_mark (before : Tokens) (forest : Forest Token) :
    (mark before forest).surface = forest.surface := by
  induction forest generalizing before with
  | nil => rfl
  | leaf t next ih => rw [mark, Forest.surface, ih, Forest.surface]
  | pair o inside c next _ ih =>
      rw [mark, Forest.surface_append, surface_dress, List.nil_append, ih, Forest.surface]

/-! ## What a pair is told of the tokens before it -/

/-- No pair behind the one can tell it from the other. -/
def Alike (before before' : Tokens) : Prop :=
  ∀ front, opensClassBody (front ++ before) = opensClassBody (front ++ before')

theorem Alike.extend {before before' : Tokens} (alike : Alike before before') (more : Tokens) :
    Alike (more ++ before) (more ++ before') := by
  intro front
  rw [← List.append_assoc, ← List.append_assoc]
  exact alike (front ++ more)

theorem Alike.cons {before before' : Tokens} (alike : Alike before before') (t : Token) :
    Alike (t :: before) (t :: before') :=
  alike.extend [t]

theorem Alike.dress_eq {before before' : Tokens} (alike : Alike before before') (o c : Token)
    (inside inner : Forest Token) :
    dress before o inside inner c = dress before' o inside inner c := by
  have same : wraps o before = wraps o before' := by
    have here := alike []
    simp only [List.nil_append] at here
    rw [wraps, here, wraps]
  simp only [dress, same]

theorem mark_congr {before before' : Tokens} (alike : Alike before before')
    (forest : Forest Token) : mark before forest = mark before' forest := by
  induction forest generalizing before before' with
  | nil => rfl
  | leaf t next ih => rw [mark, mark, ih (alike.cons t)]
  | pair o inside c next ihInside ihNext =>
      rw [mark, mark, ihInside (alike.cons o), alike.dress_eq,
        ihNext (alike.extend _)]

theorem noWord_of_isOpenBrace {t : Tag} (opens : t.isOpenBrace = true) :
    (t == .classWord) = false ∧ (t == .extendsWord) = false := by
  cases t <;> revert opens <;> decide

/-- Behind at least one more token, what stands before a brace is out of sight. -/
theorem alike_of_braces {t o p : Token} (opens : o.tag.isOpenBrace = true)
    (opens' : p.tag.isOpenBrace = true) (more before before' : Tokens) :
    Alike (t :: (more ++ o :: before)) (t :: (more ++ p :: before')) := by
  obtain ⟨noClass, noExtends⟩ := noWord_of_isOpenBrace opens
  obtain ⟨noClass', noExtends'⟩ := noWord_of_isOpenBrace opens'
  intro front
  rcases front with - | ⟨u, - | ⟨w, front⟩⟩
  · cases more <;> simp [opensClassBody, noClass, noExtends, noClass', noExtends']
  · simp [opensClassBody]
  · simp [opensClassBody]

/-! ## One visit -/

/-- What the braces before and after a colon become, with the tokens beyond them. -/
def openSide (o : Token) (before : Tokens) : Tokens :=
  let brace := o.retag .mappingStart
  brace :: if wraps o before then .generated .indent brace :: before else before

def closeSide (o : Token) (before : Tokens) (c : Token) (after : Tokens) : Tokens :=
  c.retag .mappingEnd ::
    if wraps o before then .generated .outdent (o.retag .mappingStart) :: after else after

theorem retag_self {t : Token} {tag : Tag} (same : t.tag = tag) : t.retag tag = t := by
  subst same
  rfl

theorem visit_other {t : Token} (other : t.tag ≠ .colon) (before after : Tokens) :
    visit before t after = Cursor.keep before t after := by
  unfold visit
  rw [if_pos other]

theorem visit_empty {o t c : Token} (colon : t.tag = .colon)
    (empty : isEmptyMapping o t c = true) (before after : Tokens) :
    visit (o :: before) t (c :: after) =
      .ok (⟨o.retag .mappingStart :: before, c.retag .mappingEnd :: after⟩, 1) := by
  simp [visit, colon, empty]

/-- A colon that spells no empty mapping. -/
theorem visit_colon {t : Token} (colon : t.tag = .colon) {before after : Tokens}
    (notEmpty : ∀ o ∈ before.head?, ∀ c ∈ after.head?, isEmptyMapping o t c = false) :
    visit before t after =
      (markMapping before t after).map fun sides => (⟨sides.1, t :: sides.2⟩, 1) := by
  cases before with
  | nil => simp [visit, colon]
  | cons o before =>
      cases after with
      | nil => simp [visit, colon]
      | cons c after => simp [visit, colon, notEmpty o rfl c rfl]

/-- The braces found around a colon become a mapping. -/
theorem markMapping_found {before after : Tokens} {left right : Sought}
    (opened : openBrace? before = some left) (closed : closeBrace? after = some right) (t : Token) :
    markMapping before t after =
      .ok (left.passed ++ openSide left.token left.beyond,
        right.passed ++ closeSide left.token left.beyond right.token right.beyond) := by
  have opens := (split_of_seek opened).2
  have brace : (if (left.token.tag == .indent) = true then left.token.retag .mappingStart
      else left.token) = left.token.retag .mappingStart := by
    split
    · rfl
    · rename_i notBlock
      refine (retag_self ?_).symm
      simpa [Tag.isOpenBrace, notBlock] using opens
  simp only [markMapping, opened, closed, brace]
  rfl

/-- A colon inside a pair dresses it. -/
theorem markMapping_inside {passed before after : Tokens} {o t c : Token} {next : Forest Token}
    (back : Passes Tag.isOpenBrace Tag.isCloseBrace passed) (braced : next.Braced)
    (braces : o.Braces c) :
    markMapping (passed ++ o :: before) t (next.flatten ++ c :: after) =
      .ok (passed ++ openSide o before, next.flatten ++ closeSide o before c after) := by
  obtain ⟨opens, closes⟩ := braces
  have left : openBrace? (passed ++ o :: before) = some ⟨passed, o, before⟩ :=
    back.found (Tag.isCloseBrace_of_isOpenBrace opens) opens
  exact markMapping_found left (closeBrace?_inside braced closes after) t

/-! ## The walk -/

open Cursor (Walks)

/-- Tokens other than colons are passed as they are. -/
theorem walks_over {tokens : Tokens} (noColon : ∀ t ∈ tokens, t.tag ≠ .colon)
    (before after : Tokens) :
    Walks visit tokens.length ⟨before, tokens ++ after⟩ ⟨tokens.reverse ++ before, after⟩ := by
  induction tokens generalizing before with
  | nil => exact .here _ _
  | cons t tokens ih =>
      rw [List.reverse_cons, List.append_assoc]
      exact .keep (visit_other (noColon t (.head _)) before _)
        (ih (fun u member => noColon u (.tail _ member)) (t :: before))

theorem noColon_of_isOpenBrace {t : Tag} (opens : t.isOpenBrace = true) : t ≠ .colon := by
  rintro rfl
  cases opens

theorem noColon_of_isCloseBrace {t : Tag} (closes : t.isCloseBrace = true) : t ≠ .colon := by
  rintro rfl
  cases closes

/-- A colon of a loose forest lies at its surface or directly inside a pair. -/
theorem cases_colon {forest : Forest Token} (loose : forest.Loose) {front back : Tokens} {t : Token}
    (colon : t.tag = .colon) (split : forest.flatten = front ++ t :: back) :
    (∃ before after : Forest Token, forest = before.append (.leaf t after) ∧
        before.flatten = front ∧ after.flatten = back) ∨
      ∃ (left : Tokens) (o : Token) (before after : Forest Token) (c : Token) (right : Tokens),
        forest.Holds o (before.append (.leaf t after)) c ∧
          front = left ++ o :: before.flatten ∧ back = after.flatten ++ c :: right := by
  cases Forest.place_of_split split with
  | surface before after whole front_eq back_eq =>
      exact .inl ⟨before, after, whole, front_eq.symm, back_eq.symm⟩
  | inside left o before after c right holds front_eq back_eq =>
      exact .inr ⟨left, o, before, after, c, right, holds, front_eq, back_eq⟩
  | edge o inside c holds ends =>
      exfalso
      obtain ⟨⟨opens, closes⟩, -⟩ := loose.of_holds holds
      rcases ends with rfl | rfl
      · exact noColon_of_isOpenBrace opens colon
      · exact noColon_of_isCloseBrace closes colon

/-- The pair around a place is dressed if there was a colon to do it. -/
def openBy (colon : Bool) (o : Token) (before : Tokens) : Tokens :=
  if colon then openSide o before else o :: before

def closeBy (colon : Bool) (o : Token) (before : Tokens) (c : Token) (after : Tokens) : Tokens :=
  if colon then closeSide o before c after else c :: after

theorem closeBy_append (colon : Bool) (o : Token) (before : Tokens) (c : Token)
    (after : Tokens) : closeBy colon o before c after = closeBy colon o before c [] ++ after := by
  simp only [closeBy, closeSide]
  split
  · split <;> rfl
  · rfl

theorem noColon_of_mem_closeBy {c : Token} (closes : c.tag.isCloseBrace = true) (colon : Bool)
    (o : Token) (before : Tokens) : ∀ t ∈ closeBy colon o before c [], t.tag ≠ .colon := by
  intro t member
  simp only [closeBy, closeSide] at member
  split at member
  · rcases List.mem_cons.1 member with rfl | later
    · exact fun tag => by cases tag
    · split at later
      · rw [List.mem_singleton.1 later]
        exact fun tag => by cases tag
      · cases later
  · rw [List.mem_singleton.1 member]
    exact noColon_of_isCloseBrace closes

theorem length_closeBy (colon : Bool) (o : Token) (before : Tokens) (c : Token) :
    (closeBy colon o before c []).length ≤ 2 := by
  simp only [closeBy, closeSide]
  split
  · split <;> simp
  · simp

/-- The two sides of a dressed pair, and what lies between them. -/
theorem flatten_dress {before : Tokens} {o c : Token} {inside : Forest Token}
    (notEmpty : spellsEmpty o inside c = false) (inner : Forest Token) :
    (dress before o inside inner c).flatten.reverse ++ before =
      (closeBy (hasColon inside) o before c []).reverse ++
        (inner.flatten.reverse ++ openBy (hasColon inside) o before) := by
  simp only [dress, closeBy, closeSide, openBy, openSide, notEmpty, Bool.false_eq_true, if_false]
  split
  · split <;> simp
  · simp

/-- Within a pair the walk leaves the inside marked and the pair dressed. -/
def Marks (inside : Forest Token) : Prop :=
  ∀ (passed before after : Tokens) (o c : Token), o.Braces c →
    Passes Tag.isOpenBrace Tag.isCloseBrace passed →
    (passed = [] → spellsEmpty o inside c = false) →
    Walks visit (2 * inside.flatten.length)
      ⟨passed ++ o :: before, inside.flatten ++ c :: after⟩
      ⟨(mark (passed ++ o :: before) inside).flatten.reverse ++
          (passed ++ openBy (hasColon inside) o before),
        closeBy (hasColon inside) o before c after⟩

/-- A pair is passed and dressed. -/
theorem walks_pair {o c : Token} {inside : Forest Token} (braces : o.Braces c)
    (marks : Marks inside) (before after : Tokens) :
    Walks visit (2 * (inside.flatten.length + 2))
      ⟨before, o :: (inside.flatten ++ c :: after)⟩
      ⟨(dress before o inside (mark (o :: before) inside) c).flatten.reverse ++ before, after⟩ := by
  have opener := visit_other (noColon_of_isOpenBrace braces.1) before (inside.flatten ++ c :: after)
  by_cases empty : spellsEmpty o inside c = true
  · -- the one colon inside goes, and with it the visit of the closer
    obtain ⟨t, rfl, colon, spelled⟩ := exists_of_spellsEmpty empty
    refine Walks.mono (n := 2) (.keep opener (.step (visit_empty colon spelled _ _) ?_)) (by omega)
    rw [Cursor.move_one]
    simp only [dress, empty, if_true]
    exact .here _ _
  · have notEmpty : spellsEmpty o inside c = false := by simpa using empty
    have within := marks [] before after o c braces .nil fun _ => notEmpty
    rw [closeBy_append] at within
    have closers := walks_over (noColon_of_mem_closeBy braces.2 (hasColon inside) o before)
      ((mark (o :: before) inside).flatten.reverse ++ openBy (hasColon inside) o before) after
    rw [flatten_dress notEmpty]
    have few := length_closeBy (hasColon inside) o before c
    exact Walks.mono (.keep opener (within.trans closers)) (by omega)

theorem flatten_dress_ne_nil (before : Tokens) (o c : Token) (inside inner : Forest Token)
    (more : Tokens) : (dress before o inside inner c).flatten.reverse ++ more ≠ [] := by
  obtain ⟨o', inner', c', pair⟩ := exists_dress_eq before o c inside inner
  simp [pair]

/-- A dressed pair is something to search past. -/
theorem passes_dress (before : Tokens) {o c : Token} {inside : Forest Token} (braces : o.Braces c)
    (inner : inside.Braced) {passed : Tokens}
    (back : Passes Tag.isOpenBrace Tag.isCloseBrace passed) :
    Passes Tag.isOpenBrace Tag.isCloseBrace
      ((dress before o inside (mark (o :: before) inside) c).flatten.reverse ++ passed) :=
  (passes_reverse_flatten (dress_braced braces (mark_braced inner _))).append back

theorem openSide_braces {o : Token} (before : Tokens) :
    openSide (o.retag .mappingStart) before = o.retag .mappingStart :: before := by
  simp [openSide, wraps]

theorem closeSide_braces {o c : Token} (before after : Tokens) :
    closeSide (o.retag .mappingStart) before (c.retag .mappingEnd) after =
      c.retag .mappingEnd :: after := by
  simp [closeSide, wraps]

theorem openBy_braces (colon : Bool) (o : Token) (before : Tokens) :
    openBy colon (o.retag .mappingStart) before = o.retag .mappingStart :: before := by
  cases colon
  · rfl
  · exact openSide_braces before

theorem closeBy_braces (colon : Bool) (o c : Token) (before after : Tokens) :
    closeBy colon (o.retag .mappingStart) before (c.retag .mappingEnd) after =
      c.retag .mappingEnd :: after := by
  cases colon
  · rfl
  · exact closeSide_braces before after

/-- A colon that is not alone between its braces is not taken for an empty mapping. -/
theorem notEmpty_inside (before after : Tokens) {passed : Tokens} {o t c : Token}
    {next : Forest Token} (colon : t.tag = .colon)
    (back : Passes Tag.isOpenBrace Tag.isCloseBrace passed) (braced : next.Braced)
    (notEmpty : passed = [] → spellsEmpty o (.leaf t next) c = false) :
    ∀ u ∈ (passed ++ o :: before).head?, ∀ w ∈ (next.flatten ++ c :: after).head?,
      isEmptyMapping u t w = false := by
  intro u first w second
  cases empty : isEmptyMapping u t w with
  | false => rfl
  | true =>
      exfalso
      obtain ⟨opens, closes⟩ := braces_of_isEmptyMapping empty
      cases next with
      | leaf x next =>
          obtain rfl : x = w := by simpa using second
          rw [braced.1.2] at closes
          cases closes
      | pair x inside y next =>
          obtain rfl : x = w := by simpa using second
          rw [Tag.isCloseBrace_of_isOpenBrace braced.1.1] at closes
          cases closes
      | nil =>
          obtain rfl : c = w := by simpa using second
          cases passed with
          | nil =>
              obtain rfl : o = u := by simpa using first
              have alone := notEmpty rfl
              simp [spellsEmpty, colon, empty] at alone
          | cons x passed =>
              obtain rfl : x = u := by simpa using first
              rw [back.head (Tag.isCloseBrace_of_isOpenBrace opens)] at opens
              cases opens

/-- The inside of a pair is marked, and by its first colon the pair is dressed. -/
theorem marks_of_braced {inside : Forest Token} (braced : inside.Braced) : Marks inside := by
  induction inside with
  | nil => exact fun passed before after o c _ _ _ => .here _ _
  | leaf t next ih =>
      obtain ⟨noBrace, later⟩ := braced
      intro passed before after o c braces back notEmpty
      have back' := (Passes.single noBrace.2 noBrace.1).append back
      simp only [Forest.flatten, List.length_cons, List.cons_append, mark, List.reverse_cons,
        List.append_assoc, List.nil_append]
      by_cases colon : t.tag = .colon
      · have visited := visit_colon colon
          (notEmpty_inside before after colon back later notEmpty)
        rw [markMapping_inside back later braces] at visited
        have first : hasColon (.leaf t next) = true := by simp [colon]
        obtain ⟨beyond, left⟩ : ∃ beyond, openSide o before = o.retag .mappingStart :: beyond :=
          ⟨_, rfl⟩
        obtain ⟨beyond', right⟩ : ∃ beyond', closeSide o before c after =
            c.retag .mappingEnd :: beyond' := ⟨_, rfl⟩
        -- the pair is dressed now, so what follows is walked as the inside of the dressed pair
        have onward := ih later (t :: passed) beyond beyond' (o.retag .mappingStart)
          (c.retag .mappingEnd) ⟨rfl, rfl⟩ back' (fun none => by cases none)
        rw [openBy_braces, closeBy_braces, List.cons_append] at onward
        rw [mark_congr (alike_of_braces (p := o) rfl braces.1 passed beyond before) next] at onward
        rw [first, openBy, closeBy, if_pos rfl, if_pos rfl, left, right]
        refine Walks.mono (n := 2 * next.flatten.length + 1) (.step visited ?_) (by omega)
        rw [Cursor.move_one, left, right]
        exact onward
      · have same : hasColon (.leaf t next) = hasColon next := by
          simp [colon]
        have onward := ih later (t :: passed) before after o c braces back'
          (fun none => by cases none)
        rw [same]
        exact Walks.mono (.keep (visit_other colon _ _) onward) (by omega)
  | pair o' inside c' next ihInside ihNext =>
      obtain ⟨braces', inner, outer⟩ := braced
      intro passed before after o c braces back notEmpty
      have pair := walks_pair braces' (ihInside inner) (passed ++ o :: before)
        (next.flatten ++ c :: after)
      have onward := ihNext outer _ before after o c braces
        (passes_dress (passed ++ o :: before) braces' inner back)
        (fun none => absurd none (flatten_dress_ne_nil _ _ _ _ _ _))
      have same : hasColon (.pair o' inside c' next) = hasColon next := rfl
      simp only [List.append_assoc] at onward
      simp only [mark, Forest.flatten_append, List.reverse_append, List.append_assoc, same,
        Forest.flatten, List.cons_append] at pair ⊢
      refine Walks.mono (pair.trans onward) ?_
      simp only [List.length_cons, List.length_append]
      omega

/-! ## The surface -/

/-- Without a colon at the surface a loose forest is passed and marked. -/
theorem walks_surface {forest : Forest Token} (loose : forest.Loose)
    (noColon : hasColon forest = false) (before after : Tokens) :
    Walks visit (2 * forest.flatten.length) ⟨before, forest.flatten ++ after⟩
      ⟨(mark before forest).flatten.reverse ++ before, after⟩ := by
  induction forest generalizing before with
  | nil => exact .here _ _
  | leaf t next ih =>
      obtain ⟨other, later⟩ : t.tag ≠ .colon ∧ hasColon next = false := by
        simpa using noColon
      have onward := ih loose later (t :: before)
      simp only [Forest.flatten, mark, List.reverse_cons, List.append_assoc]
      exact Walks.mono (.keep (visit_other other _ _) onward) (by
        simp only [List.length_cons]
        omega)
  | pair o inside c next _ ih =>
      obtain ⟨braces, inner, outer⟩ := loose
      have pair := walks_pair braces (marks_of_braced inner) before (next.flatten ++ after)
      have onward := ih outer noColon
        ((dress before o inside (mark (o :: before) inside) c).flatten.reverse ++ before)
      simp only [mark, Forest.flatten_append, List.reverse_append, List.append_assoc,
        Forest.flatten, List.cons_append] at pair onward ⊢
      refine Walks.mono (pair.trans onward) ?_
      simp only [List.length_cons, List.length_append]
      omega

/-- **What the pass makes of a stream** whose colons all lie between braces. -/
theorem markMappings_eq_mark {forest : Forest Token} (loose : forest.Loose)
    (noColon : hasColon forest = false) :
    markMappings forest.flatten = .ok (mark [] forest).flatten := by
  have whole := walks_surface loose noColon [] []
  rw [List.append_nil, List.append_nil] at whole
  have done := Cursor.scan_of_walks whole (Nat.le_refl _)
  rwa [List.reverse_reverse] at done

/-- The first colon at the surface. -/
theorem exists_first_colon {forest : Forest Token} (loose : forest.Loose)
    (colon : hasColon forest = true) :
    ∃ (front : Forest Token) (t : Token) (later : Forest Token),
      forest = front.append (.leaf t later) ∧ t.tag = .colon ∧ hasColon front = false ∧
        front.Loose ∧ later.Loose := by
  induction forest with
  | nil => cases colon
  | leaf t next ih =>
      by_cases here : t.tag = .colon
      · exact ⟨.nil, t, next, rfl, here, rfl, trivial, loose⟩
      · have noColon : hasColon next = true := by
          simpa [here] using colon
        obtain ⟨front, u, later, rfl, tag, none, first, rest⟩ := ih loose noColon
        refine ⟨.leaf t front, u, later, rfl, tag, ?_, first, rest⟩
        simpa [here] using none
  | pair o inside c next _ ih =>
      obtain ⟨front, u, later, rfl, tag, none, first, rest⟩ := ih loose.2.2 colon
      exact ⟨.pair o inside c front, u, later, rfl, tag, none, ⟨loose.1, loose.2.1, first⟩, rest⟩

/-- A loose forest ends in an open brace only at the surface. -/
theorem mem_surface_of_last {forest : Forest Token} (loose : forest.Loose) {t : Token}
    (last : forest.flatten.getLast? = some t) (opens : t.tag.isOpenBrace = true) :
    t ∈ forest.surface := by
  induction forest with
  | nil => cases last
  | leaf u next ih =>
      cases ends : next.flatten.getLast? with
      | none =>
          obtain rfl : u = t := by
            simpa [List.getLast?_cons, ends] using last
          exact .head _
      | some w =>
          obtain rfl : w = t := by
            simpa [List.getLast?_cons, ends] using last
          exact .tail _ (ih loose ends)
  | pair o inside c next _ ih =>
      obtain ⟨braces, -, outer⟩ := loose
      cases ends : next.flatten.getLast? with
      | none =>
          obtain rfl : c = t := by
            simpa [List.getLast?_cons, List.getLast?_append, ends] using last
          rw [Tag.isOpenBrace_of_isCloseBrace braces.2] at opens
          cases opens
      | some w =>
          obtain rfl : w = t := by
            simpa [List.getLast?_cons, List.getLast?_append, ends] using last
          exact ih outer ends

/-- A loose forest starts with a close brace only at the surface. -/
theorem mem_surface_of_head {forest : Forest Token} (loose : forest.Loose) {t : Token}
    (first : forest.flatten.head? = some t) (closes : t.tag.isCloseBrace = true) :
    t ∈ forest.surface := by
  cases forest with
  | nil => cases first
  | leaf u next =>
      obtain rfl : u = t := by simpa using first
      exact .head _
  | pair o inside c next =>
      obtain rfl : o = t := by simpa using first
      rw [Tag.isCloseBrace_of_isOpenBrace loose.1.1] at closes
      cases closes

/-- A colon without an open brace before it. -/
theorem visit_unopened {front : Forest Token} {t : Token} (colon : t.tag = .colon)
    (loose : front.Loose) (noOpener : ∀ u ∈ front.surface, u.tag.isOpenBrace = false)
    (later : Tokens) :
    visit front.flatten.reverse t later = .error (.unmatchedMappingOpen t.reportedAt) := by
  have notEmpty : ∀ u ∈ front.flatten.reverse.head?, ∀ w ∈ later.head?,
      isEmptyMapping u t w = false := by
    intro u last w _
    refine isEmptyMapping_eq_false (fun braces => ?_) t
    rw [List.head?_reverse] at last
    have closed := noOpener u (mem_surface_of_last loose last braces.1)
    rw [braces.1] at closed
    cases closed
  rw [visit_colon colon notEmpty]
  simp [markMapping, openBrace?_surface loose noOpener, Except.map]

/-- A colon at the surface has no brace on one side of it, so its visit fails. -/
theorem visit_fails {front later : Forest Token} {t : Token} (colon : t.tag = .colon)
    (loose : front.Loose) (loose' : later.Loose)
    (facing : ∀ u ∈ front.surface, ∀ w ∈ later.surface,
      ¬(u.tag.isOpenBrace = true ∧ w.tag.isCloseBrace = true)) :
    ∃ fault, visit front.flatten.reverse t later.flatten = .error fault := by
  have notEmpty : ∀ u ∈ front.flatten.reverse.head?, ∀ w ∈ later.flatten.head?,
      isEmptyMapping u t w = false := by
    intro u last w first
    refine isEmptyMapping_eq_false (fun braces => ?_) t
    rw [List.head?_reverse] at last
    exact facing u (mem_surface_of_last loose last braces.1) w
      (mem_surface_of_head loose' first braces.2) braces
  by_cases noOpener : ∀ u ∈ front.surface, u.tag.isOpenBrace = false
  · exact ⟨_, visit_unopened colon loose noOpener _⟩
  · have noCloser : ∀ w ∈ later.surface, w.tag.isCloseBrace = false := by
      intro w member
      cases closes : w.tag.isCloseBrace with
      | false => rfl
      | true =>
          refine absurd (fun u before => ?_) noOpener
          have apart := facing u before w member
          simpa [closes] using apart
    have right := closeBrace?_surface loose' noCloser
    rw [visit_colon colon notEmpty]
    cases left : openBrace? front.flatten.reverse <;>
      simp [markMapping, left, right, Except.map]

/-- The pass fails where it comes to a colon whose visit fails. -/
theorem markMappings_stops {front : Forest Token} (loose : front.Loose)
    (noColon : hasColon front = false) {t : Token} {later : Tokens} {fault : Fault}
    (failed : visit (mark [] front).flatten.reverse t later = .error fault) :
    markMappings (front.flatten ++ t :: later) = .error fault := by
  have walks := walks_surface loose noColon [] (t :: later)
  rw [List.append_nil] at walks
  refine Cursor.scan_of_walks_error walks failed ?_
  simp only [List.length_append, List.length_cons]
  omega

/-- The first colon without a brace pair around it is blamed, if no open brace before it stays
open. -/
theorem markMappings_unopened {front : Forest Token} (loose : front.Loose)
    (noColon : hasColon front = false) {t : Token} (colon : t.tag = .colon)
    (noOpener : ∀ u ∈ front.surface, u.tag.isOpenBrace = false) (later : Tokens) :
    markMappings (front.flatten ++ t :: later) = .error (.unmatchedMappingOpen t.reportedAt) := by
  refine markMappings_stops loose noColon (visit_unopened colon (mark_loose loose []) ?_ later)
  rwa [surface_mark]

theorem markMappings_fails {forest : Forest Token} (loose : forest.Loose)
    (facing : forest.Facing) (colon : hasColon forest = true) :
    ∃ fault, markMappings forest.flatten = .error fault := by
  obtain ⟨front, t, later, rfl, tag, none, first, rest⟩ := exists_first_colon loose colon
  obtain ⟨-, -, across⟩ := Forest.facing_append_iff.1 facing
  have apart : ∀ u ∈ (mark [] front).surface, ∀ w ∈ later.surface,
      ¬(u.tag.isOpenBrace = true ∧ w.tag.isCloseBrace = true) := by
    rw [surface_mark]
    exact fun u member w member' => across u member w (.tail _ member')
  obtain ⟨fault, failed⟩ := visit_fails tag (mark_loose first []) rest apart
  refine ⟨fault, ?_⟩
  rw [Forest.flatten_append, Forest.flatten]
  exact markMappings_stops first none failed

/-- The streams on which the pass succeeds, and what it makes of them. -/
theorem markMappings_eq_ok_iff {tokens marked : Tokens} :
    markMappings tokens = .ok marked ↔
      ∃ forest : Forest Token, forest.Loose ∧ forest.Facing ∧ hasColon forest = false ∧
        forest.flatten = tokens ∧ (mark [] forest).flatten = marked := by
  constructor
  · intro done
    obtain ⟨forest, loose, facing, rfl⟩ := exists_loose tokens
    cases colon : hasColon forest with
    | true =>
        obtain ⟨fault, failed⟩ := markMappings_fails loose facing colon
        rw [failed] at done
        cases done
    | false =>
        rw [markMappings_eq_mark loose colon] at done
        exact ⟨forest, loose, facing, colon, rfl, Except.ok.inj done⟩
  · rintro ⟨forest, loose, -, noColon, rfl, rfl⟩
    exact markMappings_eq_mark loose noColon

end TokenLayout.Braces
