/-
# TokenLayout.Proofs.Forest -- nested streams as forests

A stream whose pairs nest is a forest: its tokens that stand alone are leaves,
and a pair is a node that holds its opener, the forest between, and its closer.
A forest says nothing about which tokens may be what.  `Forest.Nests` does, by
two relations: what a leaf may be, and what an opener and its closer may be.
The library nests streams in more than one way -- by the nine kinds of pairs, by
depth alone, by braces alone -- and one forest type serves them all.

A forest is built the way a scan meets it: each constructor is one leaf or one
pair, followed by the rest of the forest at the same depth.

The main statement is `ensureBalance_iff_forest`: the balance check accepts
exactly the streams that are the flattening of a forest in which each opener is
closed by its own partner.
-/
import TokenLayout.Balance

namespace TokenLayout

set_option autoImplicit false

/-- Of two places in one list, they are the same, or one lies before the other. -/
theorem split_cases {α : Type} {front front' back back' : List α} {item item' : α}
    (same : front ++ item :: back = front' ++ item' :: back') :
    (front = front' ∧ item = item' ∧ back = back') ∨
      (∃ mid, front' = front ++ item :: mid ∧ back = mid ++ item' :: back') ∨
        ∃ mid, front = front' ++ item' :: mid ∧ back' = mid ++ item :: back := by
  rcases List.append_eq_append_iff.1 same with ⟨mid, longer, later⟩ | ⟨mid, longer, later⟩
  · cases mid with
    | nil =>
        obtain ⟨rfl, rfl⟩ := List.cons.inj later
        exact .inl ⟨by simpa using longer.symm, rfl, rfl⟩
    | cons u mid =>
        obtain ⟨rfl, behind⟩ := List.cons.inj later
        exact .inr (.inl ⟨mid, longer, behind⟩)
  · cases mid with
    | nil =>
        obtain ⟨rfl, rfl⟩ := List.cons.inj later
        exact .inl ⟨by simpa using longer, rfl, rfl⟩
    | cons u mid =>
        obtain ⟨rfl, behind⟩ := List.cons.inj later
        exact .inr (.inr ⟨mid, longer, behind⟩)

/-- What is left of a list from a place on has the item there in front. -/
theorem getElem?_of_drop {α : Type} {items behind : List α} {item : α} {place : Nat}
    (ahead : items.drop place = item :: behind) :
    items[place]? = some item ∧ items.drop (place + 1) = behind := by
  constructor
  · rw [← List.head?_drop, ahead]
    rfl
  · rw [← List.drop_drop, ahead]
    rfl

/-- A nested stream. -/
inductive Forest (α : Type) where
  | nil
  | leaf (item : α) (next : Forest α)
  | pair (opener : α) (inside : Forest α) (closer : α) (next : Forest α)

namespace Forest

variable {α β : Type}

/-- The stream a forest nests. -/
@[simp] def flatten : Forest α → List α
  | nil => []
  | leaf item next => item :: next.flatten
  | pair opener inside closer next => opener :: (inside.flatten ++ closer :: next.flatten)

/-- The same forest over other items. -/
@[simp] def map (f : α → β) : Forest α → Forest β
  | nil => nil
  | leaf item next => leaf (f item) (next.map f)
  | pair opener inside closer next => pair (f opener) (inside.map f) (f closer) (next.map f)

/-- One forest and then another, at the same depth. -/
@[simp] def append : Forest α → Forest α → Forest α
  | nil, after => after
  | leaf item next, after => leaf item (next.append after)
  | pair opener inside closer next, after => pair opener inside closer (next.append after)

/-- The leaves at depth zero. -/
@[simp] def surface : Forest α → List α
  | nil => []
  | leaf item next => item :: next.surface
  | pair _ _ _ next => next.surface

/-- Every leaf is `alone`, and every opener and its closer are `partners`. -/
def Nests (alone : α → Prop) (partners : α → α → Prop) : Forest α → Prop
  | nil => True
  | leaf item next => alone item ∧ next.Nests alone partners
  | pair opener inside closer next =>
      partners opener closer ∧ inside.Nests alone partners ∧ next.Nests alone partners

/-- The forest has this pair, at some depth. -/
def Holds : Forest α → (opener : α) → (inside : Forest α) → (closer : α) → Prop
  | nil, _, _, _ => False
  | leaf _ next, opener, inside, closer => next.Holds opener inside closer
  | pair o within c next, opener, inside, closer =>
      (o = opener ∧ within = inside ∧ c = closer) ∨ within.Holds opener inside closer ∨
        next.Holds opener inside closer

@[simp] theorem flatten_map (f : α → β) (forest : Forest α) :
    (forest.map f).flatten = forest.flatten.map f := by
  induction forest with
  | nil => rfl
  | leaf item next ih => simp [ih]
  | pair opener inside closer next ihInside ihNext => simp [ihInside, ihNext]

theorem append_assoc (forest middle after : Forest α) :
    (forest.append middle).append after = forest.append (middle.append after) := by
  induction forest with
  | nil => rfl
  | leaf item next ih => simp only [append, ih]
  | pair opener inside closer next _ ih => simp only [append, ih]

@[simp] theorem flatten_append (forest after : Forest α) :
    (forest.append after).flatten = forest.flatten ++ after.flatten := by
  induction forest with
  | nil => rfl
  | leaf item next ih => simp [ih]
  | pair opener inside closer next _ ih => simp [ih]

theorem flatten_eq_nil_iff {forest : Forest α} : forest.flatten = [] ↔ forest = .nil := by
  cases forest <;> simp

@[simp] theorem surface_append (forest after : Forest α) :
    (forest.append after).surface = forest.surface ++ after.surface := by
  induction forest with
  | nil => rfl
  | leaf item next ih => simp [ih]
  | pair opener inside closer next _ ih => simp [ih]

@[simp] theorem surface_map (f : α → β) (forest : Forest α) :
    (forest.map f).surface = forest.surface.map f := by
  induction forest with
  | nil => rfl
  | leaf item next ih => simp [ih]
  | pair opener inside closer next _ ih => simp [ih]

theorem nests_append {alone : α → Prop} {partners : α → α → Prop} {forest after : Forest α}
    (first : forest.Nests alone partners) (second : after.Nests alone partners) :
    (forest.append after).Nests alone partners := by
  induction forest with
  | nil => exact second
  | leaf item next ih => exact ⟨first.1, ih first.2⟩
  | pair opener inside closer next _ ih =>
      obtain ⟨matched, inner, outer⟩ := first
      exact ⟨matched, inner, ih outer⟩

/-- Both parts of a nested forest nest. -/
theorem Nests.of_append {alone : α → Prop} {partners : α → α → Prop} {forest after : Forest α}
    (nests : (forest.append after).Nests alone partners) :
    forest.Nests alone partners ∧ after.Nests alone partners := by
  induction forest with
  | nil => exact ⟨trivial, nests⟩
  | leaf item next ih =>
      obtain ⟨first, second⟩ := ih nests.2
      exact ⟨⟨nests.1, first⟩, second⟩
  | pair opener inside closer next _ ih =>
      obtain ⟨matched, inner, outer⟩ := nests
      obtain ⟨first, second⟩ := ih outer
      exact ⟨⟨matched, inner, first⟩, second⟩

/-- A surface leaf stands alone. -/
theorem Nests.surface {alone : α → Prop} {partners : α → α → Prop} {forest : Forest α}
    (nests : forest.Nests alone partners) {item : α} (member : item ∈ forest.surface) :
    alone item := by
  induction forest with
  | nil => simp at member
  | leaf first next ih =>
      rcases List.mem_cons.1 member with rfl | later
      · exact nests.1
      · exact ih nests.2 later
  | pair opener inside closer next _ ih => exact ih nests.2.2 member

theorem Nests.mono {alone alone' : α → Prop} {partners partners' : α → α → Prop}
    (leaves : ∀ a, alone a → alone' a) (pairs : ∀ o c, partners o c → partners' o c)
    {forest : Forest α} (nests : forest.Nests alone partners) :
    forest.Nests alone' partners' := by
  induction forest with
  | nil => trivial
  | leaf item next ih => exact ⟨leaves _ nests.1, ih nests.2⟩
  | pair opener inside closer next ihInside ihNext =>
      obtain ⟨matched, inner, outer⟩ := nests
      exact ⟨pairs _ _ matched, ihInside inner, ihNext outer⟩

theorem nests_map {alone : β → Prop} {partners : β → β → Prop} (f : α → β)
    (forest : Forest α) :
    (forest.map f).Nests alone partners ↔
      forest.Nests (fun a => alone (f a)) (fun o c => partners (f o) (f c)) := by
  induction forest with
  | nil => rfl
  | leaf item next ih => simp only [map, Nests, ih]
  | pair opener inside closer next ihInside ihNext => simp only [map, Nests, ihInside, ihNext]

/-- A forest over images is the image of a forest over the items themselves. -/
theorem exists_map_eq (f : α → β) (forest : Forest β) (items : List α)
    (same : items.map f = forest.flatten) :
    ∃ above : Forest α, above.flatten = items ∧ above.map f = forest := by
  induction forest generalizing items with
  | nil =>
      have empty : items = [] := by simpa using same
      exact ⟨nil, empty.symm, rfl⟩
  | leaf item next ih =>
      obtain ⟨a, rest, rfl, rfl, sameRest⟩ := List.map_eq_cons_iff.1 same
      obtain ⟨above, flat, mapped⟩ := ih rest sameRest
      exact ⟨leaf a above, by rw [flatten, flat], by rw [map, mapped]⟩
  | pair opener inside closer next ihInside ihNext =>
      obtain ⟨a, rest, rfl, rfl, sameRest⟩ := List.map_eq_cons_iff.1 same
      obtain ⟨inner, outer, rfl, sameInner, sameOuter⟩ := List.map_eq_append_iff.1 sameRest
      obtain ⟨c, later, rfl, rfl, sameLater⟩ := List.map_eq_cons_iff.1 sameOuter
      obtain ⟨overInside, flatInside, mappedInside⟩ := ihInside inner sameInner
      obtain ⟨overNext, flatNext, mappedNext⟩ := ihNext later sameLater
      exact ⟨pair a overInside c overNext, by rw [flatten, flatInside, flatNext],
        by rw [map, mappedInside, mappedNext]⟩

theorem holds_append {forest after inside : Forest α} {opener closer : α} :
    (forest.append after).Holds opener inside closer ↔
      forest.Holds opener inside closer ∨ after.Holds opener inside closer := by
  induction forest with
  | nil => simp [Holds]
  | leaf item next ih => simpa [Holds] using ih
  | pair o within c next _ ih => simp [Holds, ih, or_assoc]

/-- Of a pair that a nested forest has, the two are partners and the inside nests. -/
theorem Nests.of_holds {alone : α → Prop} {partners : α → α → Prop} {forest : Forest α}
    (nests : forest.Nests alone partners) {opener closer : α} {inside : Forest α}
    (holds : forest.Holds opener inside closer) :
    partners opener closer ∧ inside.Nests alone partners := by
  induction forest with
  | nil => cases holds
  | leaf item next ih => exact ih nests.2 holds
  | pair o within c next ihWithin ihNext =>
      obtain ⟨matched, inner, outer⟩ := nests
      rcases holds with ⟨rfl, rfl, rfl⟩ | deeper | later
      · exact ⟨matched, inner⟩
      · exact ihWithin inner deeper
      · exact ihNext outer later

/-- Where the item between these others stands in a forest. -/
inductive Place (forest : Forest α) (front : List α) (item : α) (back : List α) : Prop
  /-- It is a leaf at the surface. -/
  | surface (before after : Forest α) (whole : forest = before.append (.leaf item after))
      (front_eq : front = before.flatten) (back_eq : back = after.flatten)
  /-- It is a leaf directly inside a pair. -/
  | inside (left : List α) (opener : α) (before after : Forest α) (closer : α) (right : List α)
      (holds : forest.Holds opener (before.append (.leaf item after)) closer)
      (front_eq : front = left ++ opener :: before.flatten)
      (back_eq : back = after.flatten ++ closer :: right)
  /-- It is one end of a pair. -/
  | edge (opener : α) (inside : Forest α) (closer : α) (holds : forest.Holds opener inside closer)
      (ends : item = opener ∨ item = closer)

namespace Place

variable {inner next : Forest α} {front back : List α} {item : α}

theorem behind_leaf (first : α) (place : next.Place front item back) :
    (leaf first next).Place (first :: front) item back := by
  cases place with
  | surface before after whole front_eq back_eq =>
      subst whole front_eq
      exact .surface (.leaf first before) after rfl rfl back_eq
  | inside left o before after c right holds front_eq back_eq =>
      subst front_eq
      exact .inside (first :: left) o before after c right holds rfl back_eq
  | edge o inside c holds ends => exact .edge o inside c holds ends

theorem behind_pair (o : α) (inner : Forest α) (c : α) (place : next.Place front item back) :
    (pair o inner c next).Place (o :: (inner.flatten ++ c :: front)) item back := by
  cases place with
  | surface before after whole front_eq back_eq =>
      subst whole front_eq
      exact .surface (.pair o inner c before) after rfl rfl back_eq
  | inside left o' before after c' right holds front_eq back_eq =>
      subst front_eq
      exact .inside (o :: (inner.flatten ++ c :: left)) o' before after c' right
        (.inr (.inr holds)) (by simp) back_eq
  | edge o' inside c' holds ends => exact .edge o' inside c' (.inr (.inr holds)) ends

theorem inside_pair (o c : α) (next : Forest α) (place : inner.Place front item back) :
    (pair o inner c next).Place (o :: front) item (back ++ c :: next.flatten) := by
  cases place with
  | surface before after whole front_eq back_eq =>
      subst whole front_eq back_eq
      exact .inside [] o before after c next.flatten (.inl ⟨rfl, rfl, rfl⟩) rfl rfl
  | inside left o' before after c' right holds front_eq back_eq =>
      subst front_eq back_eq
      exact .inside (o :: left) o' before after c' (right ++ c :: next.flatten)
        (.inr (.inl holds)) rfl (by simp)
  | edge o' inside c' holds ends => exact .edge o' inside c' (.inr (.inl holds)) ends

end Place

/-- Every item of a stream has its place in the forest. -/
theorem place_of_split {forest : Forest α} {front back : List α} {item : α}
    (split : forest.flatten = front ++ item :: back) : forest.Place front item back := by
  induction forest generalizing front back with
  | nil => cases front <;> cases split
  | leaf first next ih =>
      cases front with
      | nil =>
          obtain ⟨rfl, rfl⟩ := List.cons.inj split
          exact .surface .nil next rfl rfl rfl
      | cons u front =>
          obtain ⟨rfl, later⟩ := List.cons.inj split
          exact (ih later).behind_leaf first
  | pair o inside c next ihInside ihNext =>
      have ends : ∀ u, u = o ∨ u = c → ∀ front back, (pair o inside c next).Place front u back :=
        fun u ends _ _ => .edge o inside c (.inl ⟨rfl, rfl, rfl⟩) ends
      cases front with
      | nil => exact ends item (.inl (List.cons.inj split).1.symm) _ _
      | cons u front =>
          obtain ⟨rfl, rest⟩ := List.cons.inj split
          -- the item lies before the closer, is the closer, or lies behind it
          rcases split_cases rest.symm with ⟨-, closer, -⟩ | ⟨more, within, rfl⟩ | ⟨more, rfl, last⟩
          · exact ends item (.inr closer) _ _
          · exact (ihInside within).inside_pair o c next
          · exact (ihNext last).behind_pair o inside c

/-- Every item of a nested stream is a leaf, an opener or a closer. -/
theorem Nests.mem {alone : α → Prop} {partners : α → α → Prop} {forest : Forest α}
    (nests : forest.Nests alone partners) {item : α} (member : item ∈ forest.flatten) :
    alone item ∨ (∃ c, partners item c) ∨ ∃ o, partners o item := by
  induction forest with
  | nil => simp at member
  | leaf first next ih =>
      rcases List.mem_cons.1 member with rfl | later
      · exact .inl nests.1
      · exact ih nests.2 later
  | pair opener inside closer next ihInside ihNext =>
      obtain ⟨matched, inner, outer⟩ := nests
      simp only [flatten, List.mem_cons, List.mem_append] at member
      rcases member with rfl | within | rfl | later
      · exact .inr (.inl ⟨_, matched⟩)
      · exact ihInside inner within
      · exact .inr (.inr ⟨_, matched⟩)
      · exact ihNext outer later

/-- A nested stream is cut in one way only in front of a closer that it does not open. -/
theorem Nests.split_unique {alone : α → Prop} {partners : α → α → Prop} (opens closes : α → Prop)
    (single : ∀ a, alone a → ¬opens a ∧ ¬closes a)
    (pairs : ∀ o c, partners o c → opens o ∧ closes c) (apart : ∀ a, opens a → ¬closes a)
    {forest forest' : Forest α} (nests : forest.Nests alone partners)
    (nests' : forest'.Nests alone partners) {closer closer' : α} (ends : closes closer)
    (ends' : closes closer') {rest rest' : List α}
    (same : forest.flatten ++ closer :: rest = forest'.flatten ++ closer' :: rest') :
    forest = forest' ∧ closer = closer' ∧ rest = rest' := by
  have ne : ∀ {P : α → Prop} {a b : α}, P a → ¬P b → a ≠ b := by
    rintro P a b holds fails rfl
    exact fails holds
  induction forest generalizing forest' closer closer' rest rest' with
  | nil =>
      cases forest' with
      | nil => exact ⟨rfl, List.cons.inj same⟩
      | leaf t next => exact absurd (List.cons.inj same).1 (ne ends (single _ nests'.1).2)
      | pair o inside c next =>
          exact absurd (List.cons.inj same).1 (ne ends (apart _ (pairs _ _ nests'.1).1))
  | leaf t next ih =>
      cases forest' with
      | nil => exact absurd (List.cons.inj same).1.symm (ne ends' (single _ nests.1).2)
      | leaf t' next' =>
          obtain ⟨rfl, later⟩ := List.cons.inj same
          obtain ⟨rfl, others⟩ := ih nests.2 nests'.2 ends ends' later
          exact ⟨rfl, others⟩
      | pair o inside c next' =>
          exact absurd (List.cons.inj same).1.symm
            (ne (pairs _ _ nests'.1).1 (single _ nests.1).1)
  | pair o inside c next ihInside ihNext =>
      cases forest' with
      | nil => exact absurd (List.cons.inj same).1.symm (ne ends' (apart _ (pairs _ _ nests.1).1))
      | leaf t next' =>
          exact absurd (List.cons.inj same).1 (ne (pairs _ _ nests.1).1 (single _ nests'.1).1)
      | pair o' inside' c' next' =>
          simp only [flatten, List.cons_append, List.append_assoc] at same
          obtain ⟨rfl, behind⟩ := List.cons.inj same
          obtain ⟨rfl, rfl, later⟩ := ihInside nests.2.1 nests'.2.1 (pairs _ _ nests.1).2
            (pairs _ _ nests'.1).2 behind
          obtain ⟨rfl, others⟩ := ihNext nests.2.2 nests'.2.2 ends ends' later
          exact ⟨rfl, others⟩

end Forest

/-! ## Tokens by the kinds of their tags -/

/-- A token that neither opens nor closes a pair. -/
def Token.Alone (t : Token) : Prop :=
  t.tag.isOpener = false ∧ t.tag.isCloser = false

theorem Token.opens_or_closes_or_alone (t : Token) :
    t.tag.isOpener = true ∨ t.tag.isCloser = true ∨ t.Alone := by
  by_cases opens : t.tag.isOpener = true
  · exact .inl opens
  · by_cases closes : t.tag.isCloser = true
    · exact .inr (.inl closes)
    · exact .inr (.inr ⟨by simpa using opens, by simpa using closes⟩)

/-- An opener and its own closer. -/
def Token.Partners (opener closer : Token) : Prop :=
  opener.tag.isOpener = true ∧ opener.tag.partner? = some closer.tag

/-- An opener and any closer. -/
def Token.Brackets (opener closer : Token) : Prop :=
  opener.tag.isOpener = true ∧ closer.tag.isCloser = true

theorem Tag.isCloser_of_partner? {o c : Tag} (opens : o.isOpener = true)
    (partner : o.partner? = some c) : c.isCloser = true := by
  cases o <;> revert opens <;> cases partner <;> decide

theorem Tag.isOpener_of_isCloser {t : Tag} (closes : t.isCloser = true) :
    t.isOpener = false := by
  cases t <;> revert closes <;> decide

/-- An opener is settled by its closer. -/
theorem Tag.eq_of_partner? {o p c : Tag} (first : o.partner? = some c)
    (second : p.partner? = some c) : o = p := by
  have back := Tag.partner?_partner? first
  rw [Tag.partner?_partner? second] at back
  exact (Option.some.inj back).symm

theorem Token.Partners.brackets {o c : Token} (partners : o.Partners c) : o.Brackets c :=
  ⟨partners.1, Tag.isCloser_of_partner? partners.1 partners.2⟩

/-- Of two partners the one is of its construct just if the other is. -/
theorem Token.Partners.tag_iff {o c : Token} (partners : o.Partners c) {opener closer : Tag}
    (partner : opener.partner? = some closer) : o.tag = opener ↔ c.tag = closer := by
  have same := partners.2
  constructor
  · intro opens
    rw [opens, partner] at same
    exact (Option.some.inj same).symm
  · intro closes
    rw [closes] at same
    exact Tag.eq_of_partner? same partner

/-- Each opener is closed by its own closer, innermost first. -/
def Forest.Balanced (forest : Forest Token) : Prop :=
  forest.Nests Token.Alone Token.Partners

/-- The same number of openers and closers, and never a closer too early. -/
def Forest.Level (forest : Forest Token) : Prop :=
  forest.Nests Token.Alone Token.Brackets

theorem Forest.Balanced.level {forest : Forest Token} (balanced : forest.Balanced) :
    forest.Level :=
  balanced.mono (fun _ h => h) fun _ _ => Token.Partners.brackets

/-! ## Openers pending -/

/-- The openers pending after one more token, innermost first.  A closer takes the
last one with it, whatever its kind. -/
def pend (opened : Tokens) (t : Token) : Tokens :=
  if t.tag.isOpener then t :: opened else if t.tag.isCloser then opened.tail else opened

/-- The openers of a stream that are still pending at its end, innermost first. -/
def pending (tokens : Tokens) : Tokens :=
  tokens.foldl pend []

theorem pend_opener {t : Token} (opens : t.tag.isOpener = true) (opened : Tokens) :
    pend opened t = t :: opened := by
  simp [pend, opens]

theorem pend_closer {t : Token} (closes : t.tag.isCloser = true) (opened : Tokens) :
    pend opened t = opened.tail := by
  simp [pend, closes, Tag.isOpener_of_isCloser closes]

theorem pend_alone {t : Token} (alone : t.Alone) (opened : Tokens) : pend opened t = opened := by
  simp [pend, alone.1, alone.2]

theorem pending_concat (front : Tokens) (t : Token) :
    pending (front ++ [t]) = pend (pending front) t := by
  simp [pending]

/-- A level stream leaves the openers pending as it found them. -/
theorem foldl_pend_flatten {forest : Forest Token} (level : forest.Level) (opened : Tokens) :
    forest.flatten.foldl pend opened = opened := by
  induction forest generalizing opened with
  | nil => rfl
  | leaf t next ih =>
      simp only [Forest.flatten, List.foldl_cons, pend_alone level.1]
      exact ih level.2 opened
  | pair o inside c next ihInside ihNext =>
      obtain ⟨⟨opens, closes⟩, inner, outer⟩ := level
      simp only [Forest.flatten, List.foldl_cons, List.foldl_append, pend_opener opens,
        ihInside inner, pend_closer closes, List.tail_cons]
      exact ihNext outer opened

/-! ## The balance check -/

section Balance

theorem checkBalance_alone {t : Token} (alone : t.Alone) (opened rest : Tokens) :
    checkBalance opened (t :: rest) = checkBalance opened rest := by
  simp [checkBalance, alone.1, alone.2]

/-- The check passes over a pair, if it passes over what lies between. -/
theorem checkBalance_pair {o c : Token} (partners : o.Partners c) {between : Tokens}
    (passes : ∀ opened rest, checkBalance opened (between ++ rest) = checkBalance opened rest)
    (opened rest : Tokens) :
    checkBalance opened (o :: (between ++ c :: rest)) = checkBalance opened rest := by
  obtain ⟨opens, partner⟩ := partners
  have closes := Tag.isCloser_of_partner? opens partner
  have notOpener := Tag.isOpener_of_isCloser closes
  simp only [checkBalance, opens, if_true]
  rw [passes]
  simp only [checkBalance, notOpener, closes, partner, if_true]
  rfl

/-- The check passes over a balanced forest. -/
theorem checkBalance_flatten {forest : Forest Token} (balanced : forest.Balanced)
    (opened rest : Tokens) :
    checkBalance opened (forest.flatten ++ rest) = checkBalance opened rest := by
  induction forest generalizing opened rest with
  | nil => rfl
  | leaf t next ih =>
      simp only [Forest.flatten, List.cons_append, checkBalance_alone balanced.1]
      exact ih balanced.2 opened rest
  | pair o inside c next ihInside ihNext =>
      obtain ⟨partners, inner, later⟩ := balanced
      simp only [Forest.flatten, List.cons_append, List.append_assoc]
      rw [checkBalance_pair partners (ihInside inner), ihNext later]

/-- One step of the check: a closer meets its own opener, and the check goes on with
the openers then pending. -/
theorem checkBalance_cons {opened rest : Tokens} {t : Token}
    (accepted : checkBalance opened (t :: rest) = .ok ()) :
    (t.tag.isCloser = true → ∃ o outer, opened = o :: outer ∧ o.tag.partner? = some t.tag) ∧
      checkBalance (pend opened t) rest = .ok () := by
  unfold checkBalance at accepted
  split at accepted
  · rename_i opens
    refine ⟨?_, by rwa [pend_opener opens]⟩
    intro closes
    rw [Tag.isCloser_of_isOpener opens] at closes
    cases closes
  · rename_i notOpener
    split at accepted
    · rename_i closes
      rw [pend_closer closes]
      cases opened with
      | nil => simp at accepted
      | cons o outer =>
          simp only at accepted
          split at accepted
          · rename_i partner
            exact ⟨fun _ => ⟨o, outer, rfl, partner⟩, accepted⟩
          · simp at accepted
    · rename_i notCloser
      refine ⟨fun closes => absurd closes notCloser, ?_⟩
      rwa [pend_alone ⟨by simpa using notOpener, by simpa using notCloser⟩]

/-- Each closer of a balanced stream closes the opener pending last before it. -/
theorem pending_of_checkBalance {opened tokens : Tokens}
    (accepted : checkBalance opened tokens = .ok ()) {i : Nat} {t : Token}
    (at_ : tokens[i]? = some t) (closes : t.tag.isCloser = true) :
    ∃ o outer, (tokens.take i).foldl pend opened = o :: outer ∧
      o.tag.partner? = some t.tag := by
  induction tokens generalizing opened i with
  | nil => simp at at_
  | cons first rest ih =>
      obtain ⟨meets, onward⟩ := checkBalance_cons accepted
      cases i with
      | zero =>
          obtain rfl : first = t := by simpa using at_
          exact meets closes
      | succ i => exact ih onward at_

/-- A stream closes these openers, innermost first, with balanced streams between. -/
def Closes : (opened : Tokens) → Tokens → Prop
  | [], tokens => ∃ forest : Forest Token, forest.Balanced ∧ forest.flatten = tokens
  | opener :: outer, tokens =>
      ∃ (forest : Forest Token) (closer : Token) (rest : Tokens), forest.Balanced ∧
        opener.tag.partner? = some closer.tag ∧ tokens = forest.flatten ++ closer :: rest ∧
        Closes outer rest

/-- Put a balanced piece in front of the first forest of a closing stream. -/
theorem Closes.extend {opened tokens : Tokens} (closes : Closes opened tokens)
    {front : Tokens} (grow : Forest Token → Forest Token)
    (balanced : ∀ f : Forest Token, f.Balanced → (grow f).Balanced)
    (flat : ∀ f, (grow f).flatten = front ++ f.flatten) : Closes opened (front ++ tokens) := by
  cases opened with
  | nil =>
      obtain ⟨forest, inner, rfl⟩ := closes
      exact ⟨grow forest, balanced _ inner, flat _⟩
  | cons opener outer =>
      obtain ⟨forest, closer, rest, inner, partner, rfl, later⟩ := closes
      exact ⟨grow forest, closer, rest, balanced _ inner, partner, by simp [flat], later⟩

/-- What the check accepts with openers pending closes them. -/
theorem closes_of_checkBalance (opened tokens : Tokens)
    (accepted : checkBalance opened tokens = .ok ()) : Closes opened tokens := by
  induction tokens generalizing opened with
  | nil =>
      cases opened with
      | nil => exact ⟨.nil, trivial, rfl⟩
      | cons opener outer => simp [checkBalance, List.getLast?_cons] at accepted
  | cons t rest ih =>
      unfold checkBalance at accepted
      split at accepted
      · rename_i opens
        obtain ⟨inside, closer, later, inner, partner, rfl, closes⟩ := ih _ accepted
        have grown : Closes opened ((t :: (inside.flatten ++ [closer])) ++ later) :=
          closes.extend (fun f => .pair t inside closer f)
            (fun f outer => ⟨⟨opens, partner⟩, inner, outer⟩) fun f => by simp
        simpa using grown
      · rename_i notOpener
        split at accepted
        · cases opened with
          | nil => simp at accepted
          | cons opener outer =>
              simp only at accepted
              split at accepted
              · rename_i partner
                exact ⟨.nil, t, rest, trivial, partner, rfl, ih _ accepted⟩
              · simp at accepted
        · rename_i notCloser
          have grown : Closes opened ([t] ++ rest) :=
            (ih _ accepted).extend (.leaf t)
              (fun f outer => ⟨⟨by simpa using notOpener, by simpa using notCloser⟩, outer⟩)
              fun f => rfl
          exact grown

/-- **The balance check accepts exactly the balanced forests.** -/
theorem ensureBalance_iff_forest (tokens : Tokens) :
    ensureBalance tokens = .ok () ↔
      ∃ forest : Forest Token, forest.Balanced ∧ forest.flatten = tokens := by
  constructor
  · exact closes_of_checkBalance [] tokens
  · rintro ⟨forest, balanced, rfl⟩
    have passed := checkBalance_flatten balanced [] []
    rw [List.append_nil] at passed
    rw [ensureBalance, passed]
    rfl

end Balance

end TokenLayout
