/-
# TokenLayout.Proofs.Following -- where each token of an outcome comes from

A run keeps the tokens it is given in their order.  It may change the tag of one
(`Tag.retags` lists the changes), it may give a synthesized one a location it
lacked, and it puts new tokens between them.  Apart from leading terminators the
only token it drops is the colon of an empty mapping.

`Follows` says so, as one pass over the input and the outcome side by side.  What
may be inserted between two tokens of the outcome depends on these two alone and
on the token that caused it (`Inserted`).

The passes before the mapping pass only retag tokens and insert closers
(`Grown`), whatever their order; the other passes are followed one by one.  Main
statement: `Resolver.run_follows`.
-/
import TokenLayout.Resolver
import TokenLayout.Proofs.Closers
import TokenLayout.Proofs.Mappings
import TokenLayout.Proofs.Passes

namespace TokenLayout

set_option autoImplicit false

/-! ## A token and what becomes of it -/

/-- The changes of a tag that a run can make. -/
def Tag.retags : List (Tag × Tag) :=
  [(parenEnd, callEnd), (bracketEnd, indexEnd), (ifWord, postIf), (unlessWord, postUnless),
   (indent, mappingStart), (outdent, mappingEnd)]

/-- The tag is kept or changed by the list. -/
def Tag.Becomes (old new : Tag) : Prop :=
  old = new ∨ (old, new) ∈ retags

theorem Tag.Becomes.trans {a b c : Tag} (first : a.Becomes b) (second : b.Becomes c) :
    a.Becomes c := by
  rcases first with rfl | changed
  · exact second
  · rcases second with rfl | again
    · exact .inr changed
    · -- nothing a tag is changed to is changed again
      exfalso
      have apart : ∀ p ∈ retags, ∀ q ∈ retags, p.2 ≠ q.1 := by decide
      exact apart _ changed _ again rfl

/-- A change of tag touches neither the class of closers nor that of openers. -/
theorem Tag.Becomes.classes {a b : Tag} (becomes : a.Becomes b) :
    b.isCloser = a.isCloser ∧ b.isOpener = a.isOpener ∧ b.isOpenBrace = a.isOpenBrace ∧
      b.isCloseBrace = a.isCloseBrace := by
  rcases becomes with rfl | changed
  · exact ⟨rfl, rfl, rfl, rfl⟩
  · have same : ∀ p ∈ retags, p.2.isCloser = p.1.isCloser ∧ p.2.isOpener = p.1.isOpener ∧
        p.2.isOpenBrace = p.1.isOpenBrace ∧ p.2.isCloseBrace = p.1.isCloseBrace := by decide
    exact same _ changed

/-- A token kept under its tag or under another one. -/
def Token.Retagged (t u : Token) : Prop :=
  t.tag.Becomes u.tag ∧ u = t.retag u.tag

theorem Token.Retagged.refl (t : Token) : t.Retagged t := ⟨.inl rfl, rfl⟩

theorem Token.retagged_of_mem {t : Token} {tag : Tag} (change : (t.tag, tag) ∈ Tag.retags) :
    t.Retagged (t.retag tag) :=
  ⟨.inr change, rfl⟩

theorem Token.Retagged.trans {t u w : Token} (first : t.Retagged u) (second : u.Retagged w) :
    t.Retagged w := by
  obtain ⟨becomes, same⟩ := first
  obtain ⟨becomes', same'⟩ := second
  refine ⟨becomes.trans becomes', ?_⟩
  rw [same'] at becomes' ⊢
  rw [same]
  rfl

/-- A token whose tag is not changed further stays what it is. -/
theorem Token.Retagged.eq_of_final {t u : Token} (retagged : t.Retagged u)
    (final : ∀ p ∈ Tag.retags, p.1 ≠ t.tag) : u = t := by
  obtain ⟨same | change, whole⟩ := retagged
  · rw [whole, ← same]
    rfl
  · exact absurd rfl (final _ change)

/-- A token whose tag is the outcome of no change is the token it was. -/
theorem Token.Retagged.eq {t u : Token} (retagged : t.Retagged u)
    (fixed : ∀ p ∈ Tag.retags, p.2 ≠ u.tag) : t = u := by
  obtain ⟨same | change, whole⟩ := retagged
  · rw [whole, ← same]
    rfl
  · exact absurd rfl (fixed _ change)

/-- What a run leaves of a token it is given. -/
structure Survives (t u : Token) : Prop where
  tag : t.tag.Becomes u.tag
  fields : u = { t with tag := u.tag, location := u.location }
  location : u.location = t.location ∨
    t.location = none ∧ u.location.isSome = true ∧ t.provenance ≠ .source

theorem Token.Retagged.survives {t u : Token} (retagged : t.Retagged u) : Survives t u := by
  obtain ⟨becomes, same⟩ := retagged
  have located : u.location = t.location := by rw [same]; rfl
  refine ⟨becomes, ?_, .inl located⟩
  rw [located, same]
  rfl

/-! ## Tokens inserted -/

/-- A synthesized token of a tag, with the default text, wherever it has been put. -/
def Token.Made (u : Token) (provenance : Provenance) (tag : Tag) (cause : Origin) : Prop :=
  u = ⟨tag, tag.defaultText, u.location, provenance, some cause, false⟩

/-- A closer inserted before a closer or at the end of the stream, because of an opener. -/
def ClosesEarly (stream : Tokens) (u : Token) (next : Option Token) : Prop :=
  ∃ construct opener, (construct = Closers.call ∨ construct = Closers.index) ∧
    opener ∈ stream ∧ opener.tag = construct.opener ∧
    u.Made .generated construct.closer opener.snapshot ∧ ∀ n ∈ next, n.tag.isCloser = true

/-- One half of a block inserted around a mapping, because of its open brace. -/
def WrapsMapping (stream : Tokens) (previous : Option Token) (u : Token) (next : Option Token) :
    Prop :=
  ∃ brace ∈ stream, brace.tag = .indent ∧
    ((u.Made .generated .indent (brace.retag .mappingStart).snapshot ∧
        ∃ n, next = some n ∧ n.tag = .mappingStart) ∨
      (u.Made .generated .outdent (brace.retag .mappingStart).snapshot ∧
        ∃ p, previous = some p ∧ p.tag = .mappingEnd))

/-- A terminator inserted after a block that ends a statement, because of the block's end. -/
def EndsStatement (previous : Option Token) (u : Token) (next : Option Token) : Prop :=
  ∃ p n cause, previous = some p ∧ next = some n ∧ p.tag = .outdent ∧
    n.tag.isSingleCloser = false ∧ n.tag.suppressesTerminator = false ∧
    u.Made .explicit .terminator cause ∧ cause.tag = p.tag ∧ cause.value = p.value

/-- A token inserted by a run on a stream, between its neighbours in the outcome. -/
def Inserted (stream : Tokens) (previous : Option Token) (u : Token) (next : Option Token) :
    Prop :=
  ClosesEarly stream u next ∨ WrapsMapping stream previous u next ∨ EndsStatement previous u next

/-! ## Input and outcome side by side -/

section

variable (survives : Token → Token → Prop)
  (inserted : Option Token → Token → Option Token → Prop)

/-- The outcome goes on from the input: its tokens are those of the input in their order,
apart from insertions and the colons of empty mappings.  `previous` is the token of the
outcome before this place. -/
inductive Follows : (previous : Option Token) → (input outcome : Tokens) → Prop
  | nil {previous : Option Token} : Follows previous [] []
  | keep {previous : Option Token} {t u : Token} {input outcome : Tokens} (kept : survives t u)
      (later : Follows (some u) input outcome) : Follows previous (t :: input) (u :: outcome)
  | insert {previous : Option Token} {u : Token} {input outcome : Tokens}
      (added : inserted previous u outcome.head?) (later : Follows (some u) input outcome) :
      Follows previous input (u :: outcome)
  | empty {previous : Option Token} {o colon c p q : Token} {input outcome : Tokens}
      (tag : colon.tag = .colon) (spelled : Braces.isEmptyMapping o colon c = true)
      (opener : survives o p) (closer : survives c q) (starts : p.tag = .mappingStart)
      (ends : q.tag = .mappingEnd) (later : Follows (some q) input outcome) :
      Follows previous (o :: colon :: c :: input) (p :: q :: outcome)

end

theorem Follows.mono {survives survives' : Token → Token → Prop}
    {inserted inserted' : Option Token → Token → Option Token → Prop}
    (survivors : ∀ t u, survives t u → survives' t u)
    (insertions : ∀ p u n, inserted p u n → inserted' p u n) {previous : Option Token}
    {input outcome : Tokens} (follows : Follows survives inserted previous input outcome) :
    Follows survives' inserted' previous input outcome := by
  induction follows with
  | nil => exact .nil
  | keep kept later ih => exact .keep (survivors _ _ kept) ih
  | insert added later ih => exact .insert (insertions _ _ _ added) ih
  | empty tag spelled opener closer starts ends later ih =>
      exact .empty tag spelled (survivors _ _ opener) (survivors _ _ closer) starts ends ih

theorem Follows.refl (stream : Tokens) (previous : Option Token) (tokens : Tokens) :
    Follows Token.Retagged (WrapsMapping stream) previous tokens tokens := by
  induction tokens generalizing previous with
  | nil => exact .nil
  | cons t rest ih => exact .keep (.refl t) (ih _)

/-! ## Before the mapping pass -/

/-- A stream that retagging tokens and inserting closers may make of another. -/
inductive Grown (stream : Tokens) : Tokens → Tokens → Prop
  | nil : Grown stream [] []
  | keep {t u : Token} {input outcome : Tokens} (kept : t.Retagged u)
      (later : Grown stream input outcome) : Grown stream (t :: input) (u :: outcome)
  | insert {u : Token} {input outcome : Tokens} (added : ClosesEarly stream u outcome.head?)
      (later : Grown stream input outcome) : Grown stream input (u :: outcome)

theorem Grown.of_forall₂ {stream input outcome : Tokens}
    (each : List.Forall₂ Token.Retagged input outcome) : Grown stream input outcome := by
  induction each with
  | nil => exact .nil
  | cons kept _ ih => exact .keep kept ih

theorem ClosesEarly.tag {stream : Tokens} {u : Token} {next : Option Token}
    (early : ClosesEarly stream u next) : u.tag = .callEnd ∨ u.tag = .indexEnd := by
  obtain ⟨construct, opener, which, -, -, made, -⟩ := early
  rw [made]
  rcases which with rfl | rfl
  · exact .inl rfl
  · exact .inr rfl

theorem ClosesEarly.isCloser {stream : Tokens} {u : Token} {next : Option Token}
    (early : ClosesEarly stream u next) : u.tag.isCloser = true := by
  rcases early.tag with tag | tag <;> rw [tag] <;> rfl

/-- A closer inserted is not retagged. -/
theorem ClosesEarly.eq_of_retagged {stream : Tokens} {u w : Token} {next : Option Token}
    (early : ClosesEarly stream u next) (retagged : u.Retagged w) : w = u := by
  refine retagged.eq_of_final fun p change => ?_
  have apart : ∀ p ∈ Tag.retags, p.1 ≠ .callEnd ∧ p.1 ≠ .indexEnd := by decide
  rcases early.tag with tag | tag <;> rw [tag]
  · exact (apart p change).1
  · exact (apart p change).2

theorem ClosesEarly.next {stream : Tokens} {u : Token} {next next' : Option Token}
    (early : ClosesEarly stream u next)
    (closes : (∀ n ∈ next, n.tag.isCloser = true) → ∀ n ∈ next', n.tag.isCloser = true) :
    ClosesEarly stream u next' := by
  obtain ⟨construct, opener, which, member, opens, made, before⟩ := early
  exact ⟨construct, opener, which, member, opens, made, closes before⟩

namespace Grown

variable {stream input middle outcome : Tokens}

theorem refl (stream input : Tokens) : Grown stream input input := by
  induction input with
  | nil => exact .nil
  | cons t input ih => exact .keep (.refl t) ih

/-- The same tokens in front. -/
theorem prepend (front : Tokens) (grown : Grown stream input outcome) :
    Grown stream (front ++ input) (front ++ outcome) := by
  induction front with
  | nil => exact grown
  | cons t front ih => exact .keep (.refl t) ih

/-- A closer that stands next still does afterwards. -/
theorem closes_next (grown : Grown stream input outcome)
    (next : ∀ n ∈ input.head?, n.tag.isCloser = true) :
    ∀ n ∈ outcome.head?, n.tag.isCloser = true := by
  cases grown with
  | nil => exact next
  | keep kept later =>
      rintro n first
      obtain rfl : _ = n := by simpa using first
      rw [kept.1.classes.1]
      exact next _ rfl
  | insert added later =>
      rintro n first
      obtain rfl : _ = n := by simpa using first
      exact added.isCloser

theorem trans (first : Grown stream input middle) (second : Grown stream middle outcome) :
    Grown stream input outcome := by
  induction second generalizing input with
  | nil => exact first
  | insert added later ih => exact .insert added (ih first)
  | keep kept later ih =>
      cases first with
      | keep kept' later' => exact .keep (kept'.trans kept) (ih later')
      | insert added later' =>
          rw [added.eq_of_retagged kept]
          exact .insert (added.next later.closes_next) (ih later')

/-- An opener was there before. -/
theorem mem_of_isOpener (grown : Grown stream input outcome) {t : Token}
    (member : t ∈ outcome) (opens : t.tag.isOpener = true) : ∃ s ∈ input, s.Retagged t := by
  induction grown with
  | nil => cases member
  | keep kept later ih =>
      rcases List.mem_cons.1 member with rfl | within
      · exact ⟨_, .head _, kept⟩
      · obtain ⟨s, there, retagged⟩ := ih within
        exact ⟨s, .tail _ there, retagged⟩
  | insert added later ih =>
      rcases List.mem_cons.1 member with rfl | within
      · rw [Tag.isOpener_of_isCloser added.isCloser] at opens
        cases opens
      · exact ih within

/-- The causes of insertions may be sought elsewhere. -/
theorem mono {stream' : Tokens} (grown : Grown stream input outcome)
    (causes : ∀ u n, ClosesEarly stream u n → ClosesEarly stream' u n) :
    Grown stream' input outcome := by
  induction grown with
  | nil => exact .nil
  | keep kept later ih => exact .keep kept ih
  | insert added later ih => exact .insert (causes _ _ added) ih

end Grown

/-! ## Closers -/

namespace Closers

/-- Where a construct stops, but for the `OUTDENT` after its `)`, stands its own closer. -/
theorem becomes_closer {construct : Construct} (which : construct = call ∨ construct = index)
    {before after : Tokens} {last : Token} (holds : construct.ends before last after = true)
    (notOutdent : last.tag ≠ .outdent) : last.tag.Becomes construct.closer := by
  rcases which with rfl | rfl
  · simp only [call, endsCall] at holds
    split at holds
    · rename_i tag
      exact .inr (by rw [tag]; decide)
    · rename_i tag
      exact .inl tag
    · rename_i tag
      exact absurd tag notOutdent
    · cases holds
  · simp only [index, endsIndex, Bool.or_eq_true, beq_iff_eq] at holds
    rcases holds with tag | tag
    · exact .inr (by rw [tag]; decide)
    · exact .inl tag

/-- Closing one construct retags a token after it or inserts a closer. -/
theorem grown_closeOne {construct : Construct} (which : construct = call ∨ construct = index)
    {stream before after closed : Tokens} {opener : Token} (member : opener ∈ stream)
    (opens : opener.tag = construct.opener)
    (done : closeOne construct before opener after = .ok closed) : Grown stream after closed := by
  unfold closeOne at done
  split at done
  · rename_i i last ends
    obtain ⟨left, right, rfl, rfl, holds⟩ := Region.exists_of_stop ends
    obtain rfl := (Except.ok.inj done).symm
    rw [Nat.zero_add]
    split
    · rename_i outdent
      -- only a call stops at an `OUTDENT`, and the `)` before it is not the opener
      rcases which with rfl | rfl
      · rcases List.eq_nil_or_concat left with rfl | ⟨left, paren, rfl⟩
        · simp [call, endsCall, outdent, opens] at holds
        · have tag : paren.tag = .parenEnd := by
            have stops := holds
            simp only [List.concat_eq_append, List.reverse_append, List.reverse_cons,
              List.reverse_nil, List.nil_append, List.cons_append, call, endsCall, outdent,
              Bool.and_eq_true, beq_iff_eq] at stops
            exact stops.1
          simp only [List.concat_eq_append, List.length_append, List.length_singleton,
            Nat.add_sub_cancel, List.append_assoc, List.singleton_append, modify_length_append]
          refine .prepend left (.keep (Token.retagged_of_mem ?_) (.refl _ _))
          rw [tag]
          decide
      · simp [index, endsIndex, outdent] at holds
    · rename_i notOutdent
      rw [modify_length_append]
      exact .prepend left (.keep ⟨becomes_closer which holds notOutdent, rfl⟩ (.refl _ _))
  · rename_i i ends
    obtain ⟨left, right, rfl, rfl, next⟩ := Region.exists_of_implicit ends
    obtain rfl := (Except.ok.inj done).symm
    rw [Nat.zero_add, insertIdx_length_append]
    refine .prepend left (.insert ⟨construct, opener, which, member, opens, ?_, next⟩ (.refl _ _))
    rfl
  · cases done

theorem grown_closeOnto {construct : Construct} (which : construct = call ∨ construct = index)
    {stream before tokens closed : Tokens} (members : ∀ t ∈ tokens, t ∈ stream)
    (done : closeOnto construct before tokens [] = .ok closed) : Grown stream tokens closed := by
  induction tokens generalizing before closed with
  | nil =>
      obtain rfl := (Except.ok.inj done).symm
      exact .nil
  | cons t rest ih =>
      obtain ⟨later, behind, first⟩ := closeOnto_cons_cases done
      have grown := ih (fun u member => members u (.tail _ member)) behind
      rcases first with ⟨closed', opens, one, rfl⟩ | ⟨-, rfl⟩
      · exact .keep (.refl t)
          (grown.trans (grown_closeOne which (members t (.head _)) opens one))
      · exact .keep (.refl t) grown

/-- Both constructs may be closed in any stream grown from another. -/
theorem grown_close {construct : Construct} (which : construct = call ∨ construct = index)
    {stream tokens closed : Tokens} (grown : Grown stream stream tokens)
    (done : close construct tokens = .ok closed) : Grown stream stream closed := by
  refine grown.trans ((grown_closeOnto which (fun _ member => member) done).mono ?_)
  rintro u n ⟨construct', opener, which', member, opens, made, next⟩
  have isOpener : opener.tag.isOpener = true := by
    rw [opens]
    rcases which' with rfl | rfl <;> rfl
  have fixed : ∀ p ∈ Tag.retags, p.2 ≠ opener.tag := by
    rw [opens]
    rcases which' with rfl | rfl <;> decide
  obtain ⟨s, there, retagged⟩ := grown.mem_of_isOpener member isOpener
  obtain rfl := retagged.eq fixed
  exact ⟨construct', s, which', there, opens, made, next⟩

end Closers

/-! ## Conditionals -/

namespace Conditionals

theorem retagged_settle {t u : Token} {after : Tokens} (settled : settle t after = .ok u) :
    t.Retagged u := by
  rcases settle_cases settled with ⟨rfl, -⟩ | ⟨tag, keyword, -, rfl⟩
  · exact .refl u
  · refine Token.retagged_of_mem ?_
    rcases trailing?_cases keyword with ⟨word, rfl⟩ | ⟨word, rfl⟩
    · rw [word]
      decide
    · rw [word]
      decide

theorem retagged_trailed {tokens out : Tokens} (done : trailed tokens = .ok out) :
    List.Forall₂ Token.Retagged tokens out :=
  forall₂_trailed retagged_settle done

theorem grown_trailed {stream tokens out : Tokens} (done : trailed tokens = .ok out) :
    Grown stream tokens out :=
  .of_forall₂ (retagged_trailed done)

end Conditionals

/-! ## The mapping pass -/

namespace Braces

theorem retagged_openBrace {o : Token} (opens : o.tag.isOpenBrace = true) :
    o.Retagged (o.retag .mappingStart) := by
  rcases (by simpa [Tag.isOpenBrace] using opens : o.tag = .indent ∨ o.tag = .mappingStart) with
    tag | tag
  · exact Token.retagged_of_mem (by rw [tag]; decide)
  · exact ⟨.inl tag, rfl⟩

theorem retagged_closeBrace {c : Token} (closes : c.tag.isCloseBrace = true) :
    c.Retagged (c.retag .mappingEnd) := by
  rcases (by simpa [Tag.isCloseBrace] using closes : c.tag = .outdent ∨ c.tag = .mappingEnd) with
    tag | tag
  · exact Token.retagged_of_mem (by rw [tag]; decide)
  · exact ⟨.inl tag, rfl⟩

variable {stream : Tokens}

/-- What the mapping pass does to tokens with whatever follows them. -/
def Leads (stream input outcome : Tokens) : Prop :=
  ∀ rest rest', (∀ previous, Follows Token.Retagged (WrapsMapping stream) previous rest rest') →
    ∀ previous, Follows Token.Retagged (WrapsMapping stream) previous (input ++ rest)
      (outcome ++ rest')

theorem leads_dress {o c : Token} (braces : o.Braces c) (member : o ∈ stream)
    {inside inner : Forest Token} (within : Leads stream inside.flatten inner.flatten)
    (before : Tokens) :
    Leads stream (o :: (inside.flatten ++ [c])) (dress before o inside inner c).flatten := by
  intro rest rest' later previous
  have opener := retagged_openBrace braces.1
  have closer := retagged_closeBrace braces.2
  rw [List.cons_append, List.append_assoc, List.singleton_append]
  simp only [dress]
  split
  · rename_i empty
    obtain ⟨t, rfl, colon, spelled⟩ := exists_of_spellsEmpty empty
    exact .empty colon spelled opener closer rfl rfl (later _)
  · split
    · have mapping : ∀ rest'', (∀ previous, previous = some (c.retag .mappingEnd) →
          Follows Token.Retagged (WrapsMapping stream) previous rest rest'') → ∀ previous,
          Follows Token.Retagged (WrapsMapping stream) previous
            (o :: (inside.flatten ++ c :: rest)) (o.retag .mappingStart ::
              (inner.flatten ++ c.retag .mappingEnd :: rest'')) :=
        fun rest'' after previous =>
          .keep opener (within _ _ (fun previous => .keep closer (after _ rfl)) _)
      split
      · rename_i wrap
        have indent : o.tag = .indent := by
          simp only [wraps, Bool.and_eq_true, beq_iff_eq] at wrap
          exact wrap.1
        -- the wrapper's ends are told by the mapping braces next to them
        simp only [Forest.flatten, List.cons_append, List.append_assoc, List.nil_append]
        refine .insert ⟨o, member, indent, .inl ⟨rfl, _, rfl, rfl⟩⟩ (mapping _ ?_ _)
        rintro previous rfl
        exact .insert ⟨o, member, indent, .inr ⟨rfl, _, rfl, rfl⟩⟩ (later _)
      · simp only [Forest.flatten, List.cons_append, List.append_assoc, List.nil_append]
        exact mapping _ (fun previous _ => later previous) _
    · simp only [Forest.flatten, List.cons_append, List.append_assoc, List.nil_append]
      exact .keep (.refl o) (within _ _ (fun previous => .keep (.refl c) (later _)) _)

theorem leads_mark {forest : Forest Token} (loose : forest.Loose)
    (members : ∀ t ∈ forest.flatten, t ∈ stream) (before : Tokens) :
    Leads stream forest.flatten (mark before forest).flatten := by
  induction forest generalizing before with
  | nil => exact fun rest rest' later previous => later previous
  | leaf t next ih =>
      intro rest rest' later previous
      exact .keep (.refl t) (ih loose (fun u member => members u (.tail _ member)) _ _ _ later _)
  | pair o inside c next ihInside ihNext =>
      obtain ⟨braces, inner, outer⟩ := loose
      have within := ihInside inner.loose (fun u member => members u (by
        simp [member])) (o :: before)
      have pair := leads_dress braces (members o (.head _)) within before
      intro rest rest' later previous
      have onward := ihNext outer (fun u member => members u (by
        simp [member]))
        ((dress before o inside (mark (o :: before) inside) c).flatten.reverse ++ before) _ _ later
      have whole := pair _ _ onward previous
      simpa [mark] using whole

/-- The mapping pass, token by token. -/
theorem follows_markMappings {tokens marked : Tokens} (done : markMappings tokens = .ok marked) :
    Follows Token.Retagged (WrapsMapping tokens) none tokens marked := by
  obtain ⟨forest, loose, -, -, rfl, rfl⟩ := markMappings_eq_ok_iff.1 done
  have whole := leads_mark loose (fun _ member => member) [] [] [] (fun _ => .nil) none
  simpa using whole

end Braces

/-- An insertion of the passes up to the mapping pass. -/
def InsertedEarly (stream : Tokens) (previous : Option Token) (u : Token) (next : Option Token) :
    Prop :=
  ClosesEarly stream u next ∨ WrapsMapping stream previous u next

theorem isEmptyMapping_of_retagged {o t c o' t' c' : Token} (opener : o.Retagged o')
    (colon : t.Retagged t') (closer : c.Retagged c')
    (empty : Braces.isEmptyMapping o' t' c' = true) : Braces.isEmptyMapping o t c = true := by
  rw [opener.2, colon.2, closer.2] at empty
  simpa [Braces.isEmptyMapping, opener.1.classes, closer.1.classes] using empty

theorem Tag.isOpener_of_isOpenBrace {t : Tag} (opens : t.isOpenBrace = true) :
    t.isCloser = false := by
  cases t <;> revert opens <;> decide

/-- A closer that stands next still does after the mapping pass. -/
theorem Follows.closes_next {stream middle outcome : Tokens} {p : Token}
    (follows : Follows Token.Retagged (WrapsMapping stream) (some p) middle outcome)
    (notMapping : p.tag ≠ .mappingEnd) (next : ∀ n ∈ middle.head?, n.tag.isCloser = true) :
    ∀ n ∈ outcome.head?, n.tag.isCloser = true := by
  cases follows with
  | nil => exact next
  | keep kept later =>
      rintro n first
      obtain rfl : _ = n := by simpa using first
      rw [kept.1.classes.1]
      exact next _ rfl
  | empty tag spelled opener closer starts ends later =>
      have closes := next _ rfl
      rw [Tag.isOpener_of_isOpenBrace (Braces.braces_of_isEmptyMapping spelled).1] at closes
      cases closes
  | insert added later =>
      exfalso
      obtain ⟨brace, -, -, ⟨-, n, first, starts⟩ | ⟨-, q, same, ends⟩⟩ := added
      · cases later with
        | nil => cases first
        | keep kept later =>
            obtain rfl : _ = n := by simpa using first
            have closes := next _ rfl
            rw [← kept.1.classes.1, starts] at closes
            cases closes
        | empty tag spelled opener closer starts ends later =>
            have closes := next _ rfl
            rw [Tag.isOpener_of_isOpenBrace (Braces.braces_of_isEmptyMapping spelled).1] at closes
            cases closes
        | insert added later =>
            obtain rfl : _ = n := by simpa using first
            obtain ⟨brace, -, -, ⟨made, -⟩ | ⟨made, -⟩⟩ := added <;>
              · rw [made] at starts
                cases starts
      · obtain rfl := Option.some.inj same
        exact notMapping ends

/-- A token that is no inserted closer was there before. -/
theorem Grown.exists_cons {stream input outcome : Tokens} {u : Token}
    (grown : Grown stream input (u :: outcome)) (other : u.tag ≠ .callEnd ∧ u.tag ≠ .indexEnd) :
    ∃ t rest, input = t :: rest ∧ t.Retagged u ∧ Grown stream rest outcome := by
  cases grown with
  | keep kept later => exact ⟨_, _, rfl, kept, later⟩
  | insert added later =>
      rcases added.tag with tag | tag
      · exact absurd tag other.1
      · exact absurd tag other.2

theorem WrapsMapping.of_grown {stream input middle : Tokens} (grown : Grown stream input middle)
    {previous next : Option Token} {u : Token} (wraps : WrapsMapping middle previous u next) :
    WrapsMapping input previous u next := by
  obtain ⟨brace, member, tag, rest⟩ := wraps
  obtain ⟨s, there, retagged⟩ := grown.mem_of_isOpener member (by rw [tag]; rfl)
  obtain rfl := retagged.eq (by rw [tag]; decide)
  exact ⟨s, there, tag, rest⟩

theorem Grown.follows {stream input middle outcome : Tokens} {previous : Option Token}
    {whole : Tokens} (grown : Grown stream input middle)
    (follows : Follows Token.Retagged (WrapsMapping whole) previous middle outcome)
    (causes : ∀ p u n, WrapsMapping whole p u n → WrapsMapping stream p u n) :
    Follows Token.Retagged (InsertedEarly stream) previous input outcome := by
  induction follows generalizing input with
  | nil =>
      cases grown
      exact .nil
  | keep kept later ih =>
      cases grown with
      | keep kept' later' => exact .keep (kept'.trans kept) (ih later')
      | insert added later' =>
          obtain rfl := added.eq_of_retagged kept
          have notMapping : ∀ {t : Token}, t.tag = .callEnd ∨ t.tag = .indexEnd →
              t.tag ≠ .mappingEnd := by
            rintro t (tag | tag) <;> rw [tag] <;> decide
          exact .insert (.inl (added.next (later.closes_next (notMapping added.tag)))) (ih later')
  | insert added later ih => exact .insert (.inr (causes _ _ _ added)) (ih grown)
  | empty tag spelled opener closer starts ends later ih =>
      rename_i o colon c _ _ _ _
      have braces : o.tag.isOpenBrace = true ∧ c.tag.isCloseBrace = true :=
        Braces.braces_of_isEmptyMapping spelled
      obtain ⟨o', input, rfl, opener', behind⟩ := grown.exists_cons (by
        constructor <;> intro same <;> rw [same] at braces <;> cases braces.1)
      obtain ⟨t', input, rfl, colon', beyond⟩ := behind.exists_cons (by rw [tag]; decide)
      obtain ⟨c', input, rfl, closer', last⟩ := beyond.exists_cons (by
        constructor <;> intro same <;> rw [same] at braces <;> cases braces.2)
      obtain rfl := colon'.eq (by rw [tag]; decide)
      exact .empty tag (isEmptyMapping_of_retagged opener' (.refl _) closer' spelled)
        (opener'.trans opener) (closer'.trans closer) starts ends (ih last)

/-! ## Terminators -/

namespace Statements

variable {stream : Tokens}

/-- A token, the terminator due after it, and the rest. -/
theorem follows_due {u : Token} {input outcome : Tokens}
    (later : ∀ previous, (u.tag = .mappingEnd → previous = some u) →
      Follows Token.Retagged (Inserted stream) previous input (terminated outcome)) :
    Follows Token.Retagged (Inserted stream) (some u) input
      (due u outcome.head? ++ terminated outcome) := by
  cases first : outcome.head? with
  | none => exact later _ fun _ => rfl
  | some n =>
      by_cases ends : u.tag = .outdent ∧ !continuesBlock n
      · have added : due u (some n) = [Token.explicit .terminator u] := by
          simp only [due, if_pos ends]
        rw [added]
        obtain ⟨outdent, other⟩ := ends
        simp only [continuesBlock, Bool.not_or, Bool.and_eq_true, Bool.not_eq_true'] at other
        refine .insert (.inr (.inr ⟨u, n, u.snapshot, rfl, ?_, outdent, other.1, other.2, rfl, rfl,
          rfl⟩)) (later _ fun mapping => ?_)
        · show (terminated outcome).head? = some n
          rw [head?_terminated, first]
        · rw [outdent] at mapping
          cases mapping
      · have nothing : due u (some n) = [] := by simp only [due, if_neg ends]
        rw [nothing]
        exact later _ fun _ => rfl

/-- Without a terminator due, the next token is the one that was next. -/
theorem head?_due {u : Token} (other : u.tag ≠ .outdent) (outcome : Tokens) :
    (due u outcome.head? ++ terminated outcome).head? = outcome.head? := by
  rw [due_other other, List.nil_append, head?_terminated]

theorem follows_terminated {previous : Option Token} {input outcome : Tokens}
    (follows : Follows Token.Retagged (InsertedEarly stream) previous input outcome)
    (previous' : Option Token)
    (same : ∀ p ∈ previous, p.tag = .mappingEnd → previous' = some p) :
    Follows Token.Retagged (Inserted stream) previous' input (terminated outcome) := by
  induction follows generalizing previous' with
  | nil => exact .nil
  | keep kept later ih =>
      exact .keep kept (follows_due fun previous mapping => ih previous (by
        rintro p present
        obtain rfl := Option.some.inj present
        exact mapping))
  | insert added later ih =>
      refine .insert ?_ (follows_due fun previous mapping => ih previous (by
        rintro p present
        obtain rfl := Option.some.inj present
        exact mapping))
      rcases added with early |
        ⟨brace, member, indent, ⟨made, n, first, starts⟩ | ⟨made, p, before, ends⟩⟩
      · refine .inl ?_
        rw [head?_due]
        · exact early
        · rcases early.tag with tag | tag <;> rw [tag] <;> decide
      · refine .inr (.inl ⟨brace, member, indent, .inl ⟨made, n, ?_, starts⟩⟩)
        rw [head?_due]
        · exact first
        · rw [made]
          show Tag.indent ≠ .outdent
          decide
      · exact .inr (.inl ⟨brace, member, indent, .inr ⟨made, p, same p before ends, ends⟩⟩)
  | empty tag spelled opener closer starts ends later ih =>
      rw [terminated, due_other (by rw [starts]; decide), terminated,
        due_other (by rw [ends]; decide)]
      exact .empty tag spelled opener closer starts ends
        (ih _ fun p present _ => present.symm ▸ rfl)

end Statements

/-! ## Locations -/

namespace Locations

theorem survives_settle {t u : Token} (survives : Survives t u) (previous next : Option Location) :
    Survives t (settle previous u next) := by
  unfold settle
  split
  · exact survives
  · rename_i needed
    obtain ⟨tag, fields, location⟩ := survives
    have needs : u.location = none ∧ u.provenance ≠ .source := by
      simpa [Token.isSynthesized, not_or] using needed
    refine ⟨tag, by rw [fields]; rfl, .inr ⟨?_, rfl, ?_⟩⟩
    · rcases location with same | ⟨none, -⟩
      · rw [← same, needs.1]
      · exact none
    · have same : u.provenance = t.provenance := by rw [fields]
      rw [← same]
      exact needs.2

theorem tag_settle (previous next : Option Location) (t : Token) :
    (settle previous t next).tag = t.tag := by
  show (unplaced (settle previous t next)).tag = (unplaced t).tag
  rw [unplaced_settle]

theorem made_of_unplaced {u u' : Token} (same : unplaced u = unplaced u') {provenance : Provenance}
    {tag : Tag} {cause : Origin} (made : u.Made provenance tag cause) :
    u'.Made provenance tag cause := by
  rw [made] at same
  cases u'
  simp only [unplaced, Token.mk.injEq] at same
  obtain ⟨rfl, rfl, -, rfl, rfl, rfl⟩ := same
  rfl

theorem exists_unplaced {next next' : Option Token} (same : next.map unplaced = next'.map unplaced)
    {n : Token} (present : next = some n) :
    ∃ n', next' = some n' ∧ n'.tag = n.tag ∧ n'.value = n.value := by
  subst present
  cases next' with
  | none => cases same
  | some n' =>
      have fields : unplaced n = unplaced n' := Option.some.inj same
      refine ⟨n', rfl, ?_, ?_⟩
      · exact (congrArg Token.tag fields).symm
      · exact (congrArg Token.value fields).symm

/-- What may be inserted does not depend on locations. -/
theorem inserted_of_unplaced {stream : Tokens} {previous previous' next next' : Option Token}
    {u u' : Token} (left : previous.map unplaced = previous'.map unplaced)
    (here : unplaced u = unplaced u') (right : next.map unplaced = next'.map unplaced)
    (inserted : Inserted stream previous u next) : Inserted stream previous' u' next' := by
  rcases inserted with ⟨construct, opener, which, member, opens, made, closes⟩ |
    ⟨brace, member, indent, ⟨made, n, first, starts⟩ | ⟨made, p, before, ends⟩⟩ |
    ⟨p, n, cause, before, first, outdent, notSingle, notSuppressing, made, tag, value⟩
  · refine .inl ⟨construct, opener, which, member, opens, made_of_unplaced here made, ?_⟩
    intro n' first
    obtain ⟨n, present, tag, -⟩ := exists_unplaced right.symm first
    rw [← tag]
    exact closes n present
  · obtain ⟨n', first', tag, -⟩ := exists_unplaced right first
    exact .inr (.inl ⟨brace, member, indent,
      .inl ⟨made_of_unplaced here made, n', first', tag.trans starts⟩⟩)
  · obtain ⟨p', before', tag, -⟩ := exists_unplaced left before
    exact .inr (.inl ⟨brace, member, indent,
      .inr ⟨made_of_unplaced here made, p', before', tag.trans ends⟩⟩)
  · obtain ⟨p', before', tag', value'⟩ := exists_unplaced left before
    obtain ⟨n', first', tag'', -⟩ := exists_unplaced right first
    exact .inr (.inr ⟨p', n', cause, before', first', tag'.trans outdent,
      by rw [tag'']; exact notSingle, by rw [tag'']; exact notSuppressing,
      made_of_unplaced here made, by rw [tag', tag], by rw [value', value]⟩)

theorem head?_settleFrom (location : Option Location) (tokens : Tokens) :
    (settleFrom location tokens).head?.map unplaced = tokens.head?.map unplaced := by
  cases tokens with
  | nil => rfl
  | cons t rest => exact congrArg some (unplaced_settle _ _ t)

theorem follows_settleFrom {stream input outcome : Tokens} {previous : Option Token}
    (follows : Follows Survives (Inserted stream) previous input outcome)
    (location : Option Location) (previous' : Option Token)
    (same : previous.map unplaced = previous'.map unplaced) :
    Follows Survives (Inserted stream) previous' input (settleFrom location outcome) := by
  induction follows generalizing location previous' with
  | nil => exact .nil
  | keep kept later ih =>
      exact .keep (survives_settle kept _ _) (ih _ _ (congrArg some (unplaced_settle _ _ _).symm))
  | insert added later ih =>
      refine .insert (inserted_of_unplaced same (unplaced_settle _ _ _).symm
        (head?_settleFrom _ _).symm added) (ih _ _ (congrArg some (unplaced_settle _ _ _).symm))
  | empty tag spelled opener closer starts ends later ih =>
      exact .empty tag spelled (survives_settle opener _ _) (survives_settle closer _ _)
        ((tag_settle _ _ _).trans starts) ((tag_settle _ _ _).trans ends)
        (ih _ _ (congrArg some (unplaced_settle _ _ _).symm))

end Locations

/-! ## A whole run -/

namespace Resolver

theorem runPasses_cons {pass : Pass} {later : List Pass} {tokens out : Tokens}
    (done : runPasses (pass :: later) tokens = .ok out) :
    ∃ middle, pass.apply tokens = .ok middle ∧ runPasses later middle = .ok out := by
  simp only [runPasses, List.foldlM_cons] at done
  cases first : pass.apply tokens with
  | error fault =>
      rw [first] at done
      cases done
  | ok middle =>
      rw [first] at done
      exact ⟨middle, rfl, done⟩

theorem runPasses_nil {tokens out : Tokens} (done : runPasses [] tokens = .ok out) :
    tokens = out :=
  Except.ok.inj done

theorem runPasses_of_run {r : Resolver} {tokens out : Tokens} (done : r.run tokens = .ok out) :
    runPasses r.passes tokens = .ok out := by
  simp only [run] at done
  cases resolved : runPasses r.passes tokens with
  | error fault =>
      rw [resolved] at done
      cases done
  | ok middle =>
      rw [resolved] at done
      by_cases verified : r.verifies = true
      · cases balance : ensureBalance middle with
        | error fault =>
            simp only [verified, if_true, balance, bind, Except.bind] at done
            cases done
        | ok _ =>
            simp only [verified, if_true, balance, bind, Except.bind] at done
            exact done
      · simp only [verified, bind, Except.bind] at done
        exact done

/-- The passes of a resolver are some of the first, the first of all among them. -/
theorem exists_take (r : Resolver) :
    ∃ n, r.passes = .leadingNewlines :: Pass.order.tail.take n := by
  cases stop : r.stopAfter with
  | none => exact ⟨6, by simp [passes, stop, Pass.order]⟩
  | some last => exact ⟨Pass.order.idxOf last, by simp [passes, stop, Pass.order]⟩

variable {stream tokens out : Tokens}

/-- What the outcome of a run is to the stream without its leading terminators. -/
abbrev Goes (stream outcome : Tokens) : Prop :=
  Follows Survives (Inserted stream) none stream outcome

theorem goes_of_locations {n : Nat} (goes : Goes stream tokens)
    (done : runPasses (List.take n [.locationBackfill]) tokens = .ok out) : Goes stream out := by
  cases n with
  | zero =>
      obtain rfl := runPasses_nil done
      exact goes
  | succ n =>
      obtain ⟨placed, last, ends⟩ := runPasses_cons done
      rw [List.take_nil] at ends
      obtain rfl := runPasses_nil ends
      obtain rfl := Except.ok.inj last
      exact Locations.follows_settleFrom goes none none rfl

theorem goes_of_terminators {n : Nat}
    (follows : Follows Token.Retagged (InsertedEarly stream) none stream tokens)
    (done : runPasses (List.take n [.terminators, .locationBackfill]) tokens = .ok out) :
    Goes stream out := by
  have later : ∀ p u next, InsertedEarly stream p u next → Inserted stream p u next :=
    fun p u next early => early.imp id .inl
  cases n with
  | zero =>
      obtain rfl := runPasses_nil done
      exact follows.mono (fun t u => Token.Retagged.survives) later
  | succ n =>
      obtain ⟨ended, next, done⟩ := runPasses_cons done
      rw [Pass.apply, Statements.terminateBlocks_eq] at next
      obtain rfl := Except.ok.inj next
      refine goes_of_locations ?_ done
      exact (Statements.follows_terminated follows none fun p none => by cases none).mono
        (fun t u => Token.Retagged.survives) fun _ _ _ inserted => inserted

theorem goes_of_mappings {n : Nat} (grown : Grown stream stream tokens)
    (done : runPasses (List.take n [.mappingLiterals, .terminators, .locationBackfill]) tokens =
      .ok out) : Goes stream out := by
  cases n with
  | zero =>
      obtain rfl := runPasses_nil done
      have follows : Follows Token.Retagged (InsertedEarly stream) none stream tokens :=
        grown.follows (Follows.refl stream none tokens) fun _ _ _ wraps => wraps
      exact goes_of_terminators (n := 0) follows rfl
  | succ n =>
      obtain ⟨marked, next, done⟩ := runPasses_cons done
      exact goes_of_terminators (grown.follows (Braces.follows_markMappings next)
        fun _ _ _ wraps => wraps.of_grown grown) done

theorem goes_of_conditionals {n : Nat} (grown : Grown stream stream tokens)
    (done : runPasses (List.take n [.trailingConditionals, .mappingLiterals, .terminators,
      .locationBackfill]) tokens = .ok out) : Goes stream out := by
  cases n with
  | zero =>
      obtain rfl := runPasses_nil done
      exact goes_of_mappings (n := 0) grown rfl
  | succ n =>
      obtain ⟨trailed, next, done⟩ := runPasses_cons done
      rw [Pass.apply, Conditionals.markTrailing_eq_trailed] at next
      exact goes_of_mappings (grown.trans (Conditionals.grown_trailed next)) done

theorem goes_of_closers {n : Nat}
    (done : runPasses (List.take n Pass.order.tail) stream = .ok out) : Goes stream out := by
  rcases n with - | - | n
  · obtain rfl := runPasses_nil done
    exact goes_of_conditionals (n := 0) (.refl _ _) rfl
  · obtain ⟨called, calls, done⟩ := runPasses_cons done
    obtain rfl := runPasses_nil done
    exact goes_of_conditionals (n := 0) (Closers.grown_close (.inl rfl) (.refl _ _) calls) rfl
  · obtain ⟨called, calls, done⟩ := runPasses_cons done
    obtain ⟨closed, indexes, done⟩ := runPasses_cons done
    exact goes_of_conditionals (Closers.grown_close (.inr rfl)
      (Closers.grown_close (.inl rfl) (.refl _ _) calls) indexes) done

theorem goes_of_run {r : Resolver} (done : r.run tokens = .ok out) :
    Goes (Statements.dropLeading tokens) out := by
  have ran := runPasses_of_run done
  obtain ⟨n, passes⟩ := r.exists_take
  rw [passes] at ran
  obtain ⟨stream, first, later⟩ := runPasses_cons ran
  obtain rfl := Except.ok.inj first
  exact goes_of_closers later

/-- **Nothing is lost, reordered or corrupted.**  However far a resolver runs, its outcome
goes on from the stream without its leading terminators: tokens keep their order and
everything but tags and missing locations, and what is inserted is told by its neighbours. -/
theorem run_follows (r : Resolver) (tokens out : Tokens) (done : r.run tokens = .ok out) :
    ∃ leading stream, tokens = leading ++ stream ∧ (∀ t ∈ leading, t.tag = .terminator) ∧
      (∀ t ∈ stream.head?, t.tag ≠ .terminator) ∧
      Follows Survives (Inserted tokens) none stream out := by
  refine ⟨tokens.takeWhile fun t => t.tag == .terminator, Statements.dropLeading tokens,
    List.takeWhile_append_dropWhile.symm, ?_, Statements.starts_dropLeading tokens, ?_⟩
  · intro t member
    simpa using List.all_eq_true.1 List.all_takeWhile t member
  · have inside : ∀ t ∈ Statements.dropLeading tokens, t ∈ tokens := fun t member =>
      (List.dropWhile_suffix _).subset member
    refine (goes_of_run done).mono (fun _ _ survives => survives) ?_
    rintro p u next (⟨construct, opener, which, member, rest⟩ | ⟨brace, member, rest⟩ | ends)
    · exact .inl ⟨construct, opener, which, inside _ member, rest⟩
    · exact .inr (.inl ⟨brace, inside _ member, rest⟩)
    · exact .inr (.inr ends)

/-- A class whose body is a mapping with an open call for its only value, behind a blank line and
in front of another statement. -/
def classAndCall : Tokens :=
  [.onFirstLine .terminator 0, .onFirstLine .classWord 1, .onFirstLineAs .indent "\x7b" 2,
   .onFirstLineAs .identifier "a" 3, .onFirstLine .colon 4, .onFirstLineAs .identifier "f" 5,
   .onFirstLine .callStart 6, .onFirstLineAs .outdent "\x7d" 7, .onFirstLineAs .identifier "b" 8]

/-- Its outcome holds a token of every kind that a run inserts. -/
theorem run_follows_classAndCall :
    ∃ out, Resolver.full.run classAndCall = .ok out ∧
      out.map Token.tag = [.classWord, .indent, .mappingStart, .identifier, .colon, .identifier,
        .callStart, .callEnd, .mappingEnd, .outdent, .terminator, .identifier] ∧
      ∃ leading stream, classAndCall = leading ++ stream ∧
        (∀ t ∈ leading, t.tag = .terminator) ∧ (∀ t ∈ stream.head?, t.tag ≠ .terminator) ∧
        Follows Survives (Inserted classAndCall) none stream out :=
  ⟨_, rfl, rfl, run_follows .full classAndCall _ rfl⟩

end Resolver

end TokenLayout
