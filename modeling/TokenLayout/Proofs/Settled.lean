/-
# TokenLayout.Proofs.Settled -- streams in which the mapping pass has nothing to do

In a forest that is `Braces.Settled` each pair with a colon directly inside is a
mapping already, and no pair spells the empty mapping.  The mapping pass leaves a
settled forest behind (`settled_mark`), and it leaves a settled forest alone
(`mark_eq_self`).

The passes after it keep the forest settled: terminators are leaves that are no
colons (`terminate`), and locations do not matter.  Nor does it matter whether a
conditional leads or trails, so `sketch` forgets that too: two streams with one
sketch are settled together (`settled_sketch`), and in balance together.
-/
import TokenLayout.Proofs.Mappings
import TokenLayout.Proofs.Passes

namespace TokenLayout

set_option autoImplicit false

namespace Braces

/-! ## Settled forests -/

/-- Every pair with a colon directly inside is a mapping, and none spells the empty one. -/
def Settled : Forest Token → Prop
  | .nil => True
  | .leaf _ next => Settled next
  | .pair o inside c next =>
      (hasColon inside = true → o.tag = .mappingStart ∧ c.tag = .mappingEnd) ∧
        spellsEmpty o inside c = false ∧ Settled inside ∧ Settled next

theorem Settled.append {forest after : Forest Token} (first : Settled forest)
    (second : Settled after) : Settled (forest.append after) := by
  induction forest with
  | nil => exact second
  | leaf t next ih => exact ih first
  | pair o inside c next _ ih =>
      obtain ⟨mapping, notEmpty, inner, outer⟩ := first
      exact ⟨mapping, notEmpty, inner, ih outer⟩

theorem hasColon_mark (before : Tokens) (forest : Forest Token) :
    hasColon (mark before forest) = hasColon forest := by
  rw [hasColon, surface_mark, hasColon]

/-- The pass leaves a lone token only where there was one. -/
theorem eq_leaf_of_mark {before : Tokens} {forest : Forest Token} {t : Token}
    (lone : mark before forest = .leaf t .nil) : forest = .leaf t .nil := by
  have notPair : ∀ {before : Tokens} {o c : Token} {inside next : Forest Token},
      ∃ o' inside' c' next', mark before (.pair o inside c next) = .pair o' inside' c' next' := by
    intro before o c inside next
    obtain ⟨o', inside', c', pair⟩ := exists_dress_eq before o c inside (mark (o :: before) inside)
    exact ⟨o', inside', c', _, by rw [mark, pair]; rfl⟩
  cases forest with
  | nil => cases lone
  | leaf u next =>
      obtain ⟨rfl, none⟩ := Forest.leaf.inj lone
      cases next with
      | nil => rfl
      | leaf w next => cases none
      | pair o inside c next =>
          obtain ⟨o', inside', c', next', pair⟩ := notPair
          rw [pair] at none
          cases none
  | pair o inside c next =>
      obtain ⟨o', inside', c', next', pair⟩ := notPair
      rw [pair] at lone
      cases lone

/-- A pair does not come to spell the empty mapping by what becomes of its inside. -/
theorem spellsEmpty_mark {before : Tokens} {o c o' c' : Token} {inside : Forest Token}
    (braces : o.Braces c) (opener : o'.value = o.value) (closer : c'.value = c.value)
    (notEmpty : spellsEmpty o inside c = false) :
    spellsEmpty o' (mark before inside) c' = false := by
  cases empty : spellsEmpty o' (mark before inside) c' with
  | false => rfl
  | true =>
      obtain ⟨t, lone, colon, spelled⟩ := exists_of_spellsEmpty empty
      rw [eq_leaf_of_mark lone] at notEmpty
      rw [← notEmpty]
      simp only [isEmptyMapping, opener, closer, Bool.and_eq_true] at spelled
      simp only [spellsEmpty, isEmptyMapping, braces.1, braces.2, colon, spelled, beq_self_eq_true,
        Bool.and_self]

theorem settled_dress {before before' : Tokens} {o c : Token} {inside : Forest Token}
    (braces : o.Braces c) (settled : Settled (mark before' inside)) :
    Settled (dress before o inside (mark before' inside) c) := by
  simp only [dress]
  split
  · exact ⟨fun colon => (by cases colon), rfl, trivial, trivial⟩
  · rename_i notEmpty
    have alone : ∀ o' c', o'.value = o.value → c'.value = c.value →
        spellsEmpty o' (mark before' inside) c' = false :=
      fun o' c' opener closer => spellsEmpty_mark braces opener closer (by simpa using notEmpty)
    split
    · have mapping := alone (o.retag .mappingStart) (c.retag .mappingEnd) rfl rfl
      split
      · exact ⟨fun colon => (by cases colon), rfl,
          ⟨fun _ => ⟨rfl, rfl⟩, mapping, settled, trivial⟩, trivial⟩
      · exact ⟨fun _ => ⟨rfl, rfl⟩, mapping, settled, trivial⟩
    · rename_i noColon
      refine ⟨fun colon => absurd ?_ noColon, alone o c rfl rfl, settled, trivial⟩
      rwa [hasColon_mark] at colon

/-- **The mapping pass settles a stream.** -/
theorem settled_mark {forest : Forest Token} (loose : forest.Loose) (before : Tokens) :
    Settled (mark before forest) := by
  induction forest generalizing before with
  | nil => trivial
  | leaf t next ih => exact ih loose _
  | pair o inside c next ihInside ihNext =>
      obtain ⟨braces, inner, outer⟩ := loose
      exact (settled_dress braces (ihInside inner.loose _)).append (ihNext outer _)

/-- **The mapping pass leaves a settled stream alone.** -/
theorem mark_eq_self {forest : Forest Token} (settled : Settled forest) (before : Tokens) :
    mark before forest = forest := by
  induction forest generalizing before with
  | nil => rfl
  | leaf t next ih => rw [mark, ih settled]
  | pair o inside c next ihInside ihNext =>
      obtain ⟨mapping, notEmpty, inner, outer⟩ := settled
      have same : dress before o inside inside c = .pair o inside c .nil := by
        simp only [dress, notEmpty, Bool.false_eq_true, if_false]
        split
        · rename_i colon
          obtain ⟨starts, ends⟩ := mapping colon
          rw [retag_self starts, retag_self ends, if_neg]
          simp [wraps, starts]
        · rfl
      rw [mark, ihInside inner, same]
      simp only [ihNext outer]
      rfl

theorem markMappings_eq_self {forest : Forest Token} (loose : forest.Loose)
    (noColon : hasColon forest = false) (settled : Settled forest) :
    markMappings forest.flatten = .ok forest.flatten := by
  rw [markMappings_eq_mark loose noColon, mark_eq_self settled]

end Braces

/-! ## Terminators in a forest -/

namespace Statements

/-- These leaves, and then a forest. -/
def leaves (front : Tokens) (forest : Forest Token) : Forest Token :=
  front.foldr .leaf forest

/-- A forest with every terminator that is due, given the token after it. -/
def terminate (next : Option Token) : Forest Token → Forest Token
  | .nil => .nil
  | .leaf t later =>
      .leaf t (leaves (due t (later.flatten.head?.or next)) (terminate next later))
  | .pair o inside c later =>
      .pair o (terminate (some c) inside) c
        (leaves (due c (later.flatten.head?.or next)) (terminate next later))

theorem flatten_leaves (front : Tokens) (forest : Forest Token) :
    (leaves front forest).flatten = front ++ forest.flatten := by
  induction front with
  | nil => rfl
  | cons t front ih => exact congrArg (t :: ·) ih

theorem notOutdent_of_isOpenBrace {t : Tag} (opens : t.isOpenBrace = true) : t ≠ .outdent := by
  rintro rfl
  cases opens

/-- The terminators of a stream that starts with a forest. -/
theorem terminated_flatten {forest : Forest Token} (loose : forest.Loose) (rest : Tokens) :
    terminated (forest.flatten ++ rest) =
      (terminate rest.head? forest).flatten ++ terminated rest := by
  induction forest generalizing rest with
  | nil => rfl
  | leaf t later ih =>
      simp only [Forest.flatten, List.cons_append, terminated, terminate, flatten_leaves,
        List.append_assoc, ih loose, List.head?_append]
  | pair o inside c later ihInside ihLater =>
      obtain ⟨braces, inner, outer⟩ := loose
      have opener := due_other (notOutdent_of_isOpenBrace braces.1)
      simp only [Forest.flatten, List.cons_append, List.append_assoc, terminated, terminate,
        opener, List.nil_append, flatten_leaves, ihInside inner.loose, ihLater outer,
        List.head?_cons, List.head?_append]

theorem explicit_of_due {t u : Token} {next : Option Token} (member : u ∈ due t next) :
    u = .explicit .terminator t := by
  unfold due at member
  split at member
  · split at member
    · exact List.mem_singleton.1 member
    · cases member
  · cases member

theorem tag_of_due {t u : Token} {next : Option Token} (member : u ∈ due t next) :
    u.tag = .terminator := by
  rw [explicit_of_due member]
  rfl

theorem loose_leaves {forest : Forest Token} (loose : forest.Loose) (front : Tokens) :
    (leaves front forest).Loose := by
  induction front with
  | nil => exact loose
  | cons t front ih => exact ih

theorem braced_leaves {forest : Forest Token} (braced : forest.Braced) {front : Tokens}
    (terminators : ∀ t ∈ front, t.tag = .terminator) : (leaves front forest).Braced := by
  induction front with
  | nil => exact braced
  | cons t front ih =>
      refine ⟨?_, ih fun u member => terminators u (.tail _ member)⟩
      simp [Token.NoBrace, terminators t (.head _), Tag.isOpenBrace, Tag.isCloseBrace]

theorem braced_terminate {forest : Forest Token} (braced : forest.Braced) (next : Option Token) :
    (terminate next forest).Braced := by
  induction forest generalizing next with
  | nil => trivial
  | leaf t later ih => exact ⟨braced.1, braced_leaves (ih braced.2 _) fun _ => tag_of_due⟩
  | pair o inside c later ihInside ihLater =>
      obtain ⟨braces, inner, outer⟩ := braced
      exact ⟨braces, ihInside inner _, braced_leaves (ihLater outer _) fun _ => tag_of_due⟩

theorem loose_terminate {forest : Forest Token} (loose : forest.Loose) (next : Option Token) :
    (terminate next forest).Loose := by
  induction forest generalizing next with
  | nil => trivial
  | leaf t later ih => exact loose_leaves (ih loose _) _
  | pair o inside c later _ ih =>
      obtain ⟨braces, inner, outer⟩ := loose
      exact ⟨braces, braced_terminate inner _, loose_leaves (ih outer _) _⟩

theorem hasColon_leaves {front : Tokens} (terminators : ∀ t ∈ front, t.tag = .terminator)
    (forest : Forest Token) : Braces.hasColon (leaves front forest) = Braces.hasColon forest := by
  induction front with
  | nil => rfl
  | cons t front ih =>
      have here : (t.tag == .colon) = false := by
        rw [terminators t (.head _)]
        rfl
      have later := ih fun u member => terminators u (.tail _ member)
      simp only [Braces.hasColon] at later ⊢
      simp only [leaves, List.foldr_cons, Forest.surface, List.any_cons, here, Bool.false_or]
      exact later

theorem hasColon_terminate (next : Option Token) (forest : Forest Token) :
    Braces.hasColon (terminate next forest) = Braces.hasColon forest := by
  induction forest generalizing next with
  | nil => rfl
  | leaf t later ih =>
      have added : ∀ u ∈ due t (later.flatten.head?.or next), u.tag = .terminator :=
        fun _ => tag_of_due
      have onward := (hasColon_leaves added _).trans (ih next)
      simp only [Braces.hasColon] at onward
      simp only [terminate, Braces.hasColon, Forest.surface, List.any_cons]
      rw [onward]
  | pair o inside c later _ ih => exact (hasColon_leaves (fun _ => tag_of_due) _).trans (ih next)

theorem settled_leaves {forest : Forest Token} (settled : Braces.Settled forest)
    (front : Tokens) : Braces.Settled (leaves front forest) := by
  induction front with
  | nil => exact settled
  | cons t front ih => exact ih

theorem eq_leaf_of_terminate {next : Option Token} {forest : Forest Token} {t : Token}
    (lone : terminate next forest = .leaf t .nil) : forest = .leaf t .nil := by
  cases forest with
  | nil => cases lone
  | pair o inside c later => cases lone
  | leaf u later =>
      obtain ⟨rfl, none⟩ := Forest.leaf.inj lone
      have empty := congrArg Forest.flatten none
      rw [flatten_leaves] at empty
      obtain ⟨-, gone⟩ := List.append_eq_nil_iff.1 empty
      cases later with
      | nil => rfl
      | leaf w later => cases gone
      | pair o inside c later => cases gone

/-- Terminators unsettle nothing. -/
theorem settled_terminate {forest : Forest Token} (settled : Braces.Settled forest)
    (next : Option Token) : Braces.Settled (terminate next forest) := by
  induction forest generalizing next with
  | nil => trivial
  | leaf t later ih => exact settled_leaves (ih settled _) _
  | pair o inside c later ihInside ihLater =>
      obtain ⟨mapping, notEmpty, inner, outer⟩ := settled
      refine ⟨?_, ?_, ihInside inner _, settled_leaves (ihLater outer _) _⟩
      · rwa [hasColon_terminate]
      · cases empty : Braces.spellsEmpty o (terminate (some c) inside) c with
        | false => rfl
        | true =>
            obtain ⟨t, lone, colon, spelled⟩ := Braces.exists_of_spellsEmpty empty
            rw [eq_leaf_of_terminate lone] at notEmpty
            rw [← notEmpty]
            simp [Braces.spellsEmpty, colon, spelled]

end Statements

/-! ## Sketches -/

/-- The tag of a conditional that leads, for one that trails. -/
def Tag.leading : Tag → Tag
  | .postIf => .ifWord
  | .postUnless => .unlessWord
  | t => t

/-- A token without its location, and as if every conditional were leading. -/
def Token.sketch (t : Token) : Token :=
  { t with tag := t.tag.leading, location := none }

theorem Tag.leading_classes (t : Tag) :
    t.leading.isOpener = t.isOpener ∧ t.leading.isCloser = t.isCloser ∧
      t.leading.isOpenBrace = t.isOpenBrace ∧ t.leading.isCloseBrace = t.isCloseBrace := by
  cases t <;> exact ⟨rfl, rfl, rfl, rfl⟩

theorem Tag.leading_partner? {o c : Tag} (opens : o.isOpener = true) :
    o.leading.partner? = some c.leading ↔ o.partner? = some c := by
  have same : o.leading = o := by cases o <;> first | rfl | cases opens
  rw [same]
  cases c with
  | postIf => cases o <;> revert opens <;> decide
  | postUnless => cases o <;> revert opens <;> decide
  | ifWord => cases o <;> revert opens <;> decide
  | unlessWord => cases o <;> revert opens <;> decide
  | _ => exact Iff.rfl

/-- Tags of anything but conditionals can be read off the sketch. -/
theorem Token.sketch_tag_iff (tag : Tag)
    (other : tag.leading = tag ∧ tag ≠ .ifWord ∧ tag ≠ .unlessWord) (t : Token) :
    t.sketch.tag = tag ↔ t.tag = tag := by
  obtain ⟨lasting, notIf, notUnless⟩ := other
  obtain ⟨own⟩ := t
  cases own with
  | postIf =>
      refine ⟨fun same => absurd same.symm notIf, ?_⟩
      rintro rfl
      cases lasting
  | postUnless =>
      refine ⟨fun same => absurd same.symm notUnless, ?_⟩
      rintro rfl
      cases lasting
  | _ => exact Iff.rfl

theorem balanced_sketch (forest : Forest Token) :
    (forest.map Token.sketch).Balanced ↔ forest.Balanced := by
  rw [Forest.Balanced, Forest.nests_map]
  have leaves : ∀ t : Token, t.sketch.Alone ↔ t.Alone := fun t => by
    simp [Token.Alone, Token.sketch, Tag.leading_classes]
  have pairs : ∀ o c : Token, o.sketch.Partners c.sketch ↔ o.Partners c := fun o c => by
    simp only [Token.Partners, Token.sketch, Tag.leading_classes]
    exact and_congr_right Tag.leading_partner?
  simp only [leaves, pairs]
  rfl

theorem braced_sketch (forest : Forest Token) :
    (forest.map Token.sketch).Braced ↔ forest.Braced := by
  rw [Forest.Braced, Forest.nests_map]
  simp only [Token.NoBrace, Token.Braces, Token.sketch, Tag.leading_classes]
  rfl

theorem loose_sketch (forest : Forest Token) :
    (forest.map Token.sketch).Loose ↔ forest.Loose := by
  induction forest with
  | nil => rfl
  | leaf t next ih => exact ih
  | pair o inside c next _ ih =>
      simp only [Forest.map, Forest.Loose, braced_sketch, ih]
      simp only [Token.Braces, Token.sketch, Tag.leading_classes]

namespace Braces

theorem hasColon_sketch (forest : Forest Token) :
    hasColon (forest.map Token.sketch) = hasColon forest := by
  have colon : ∀ t : Token, (t.sketch.tag == .colon) = (t.tag == .colon) := fun t => by
    cases t with
    | mk tag => cases tag <;> rfl
  simp only [hasColon, Forest.surface_map, List.any_map]
  exact congrArg _ (funext colon)

theorem spellsEmpty_sketch (o : Token) (inside : Forest Token) (c : Token) :
    spellsEmpty o.sketch (inside.map Token.sketch) c.sketch = spellsEmpty o inside c := by
  cases inside with
  | nil => rfl
  | pair o' inside' c' next => rfl
  | leaf t next =>
      cases next with
      | leaf u next => rfl
      | pair o' inside' c' next => rfl
      | nil =>
          have colon := hasColon_sketch (.leaf t .nil)
          simp only [hasColon, Forest.map, Forest.surface, List.any_cons, List.any_nil,
            Bool.or_false] at colon
          simp only [Forest.map, spellsEmpty, colon, isEmptyMapping]
          simp only [Token.sketch, Tag.leading_classes]

/-- Streams of one sketch are settled together. -/
theorem settled_sketch (forest : Forest Token) :
    Settled (forest.map Token.sketch) ↔ Settled forest := by
  have starts := Token.sketch_tag_iff .mappingStart (by decide)
  have ends := Token.sketch_tag_iff .mappingEnd (by decide)
  induction forest with
  | nil => rfl
  | leaf t next ih => exact ih
  | pair o inside c next ihInside ihNext =>
      simp only [Forest.map, Settled, hasColon_sketch, spellsEmpty_sketch, starts, ends,
        ihInside, ihNext]

end Braces

/-- No terminator is due in streams of one sketch together. -/
theorem Statements.terminated_sketch (tokens : Tokens) :
    Terminated (tokens.map Token.sketch) ↔ Terminated tokens := by
  have outdent := Token.sketch_tag_iff .outdent (by decide)
  have continues : ∀ t : Token, continuesBlock t.sketch = continuesBlock t := fun t => by
    cases t with
    | mk tag => cases tag <;> rfl
  have added : ∀ (t : Token) (next : Option Token),
      due t.sketch (next.map Token.sketch) = [] ↔ due t next = [] := fun t next => by
    cases next with
    | none => rfl
    | some n => simp [due, outdent, continues]
  induction tokens with
  | nil => rfl
  | cons t rest ih => simp only [List.map_cons, Terminated, List.head?_map, added, ih]

end TokenLayout
