/-
# TokenLayout.Proofs.SourceOrder -- locations stay in source order

A stream is in source order when no location ends before it starts and none starts before
one of an earlier token ends (`InOrder`).  Tokens without a location do not count, so the
order is one of the locations that are left when the others are passed over.

The passes before the last one may only lose some of these locations: tokens keep theirs when
they are retagged, and those put in have none (`TagBlind`, `sublist_of_runPasses`).  The last
pass walks from left to right and puts each token that needs it where the token before it
ends, or where the one after it starts.  So what it has passed never reaches beyond what is
still to come (`inOrder_settleFrom`).  Main statement: `Resolver.run_inOrder`.
-/
import TokenLayout.Proofs.Rerun

namespace TokenLayout

set_option autoImplicit false

/-! ## Source order -/

namespace Position

theorem le_iff {p q : Position} :
    p.le q = true ↔ p.line < q.line ∨ (p.line = q.line ∧ p.column ≤ q.column) := by
  simp [le]

theorem le_refl (p : Position) : p.le p = true :=
  le_iff.2 (.inr ⟨rfl, Nat.le_refl _⟩)

theorem le_trans {p q r : Position} (first : p.le q = true) (second : q.le r = true) :
    p.le r = true := by
  rw [le_iff] at *
  omega

theorem zero_le (p : Position) : zero.le p = true := by
  rw [le_iff]
  show 0 < p.line ∨ 0 = p.line ∧ 0 ≤ p.column
  omega

end Position

/-- Locations are in source order, and do not overlap. -/
structure InOrder (tokens : Tokens) : Prop where
  forward : ∀ t ∈ tokens, ∀ l ∈ t.location, l.start.le l.stop = true
  apart : tokens.Pairwise fun t u =>
    ∀ l ∈ t.location, ∀ m ∈ u.location, l.stop.le m.start = true

theorem InOrder.tail {t : Token} {rest : Tokens} (inOrder : InOrder (t :: rest)) : InOrder rest :=
  ⟨fun u member => inOrder.forward u (.tail _ member), (List.pairwise_cons.1 inOrder.apart).2⟩

theorem InOrder.behind {t : Token} {rest : Tokens} (inOrder : InOrder (t :: rest)) :
    ∀ l ∈ t.location, ∀ u ∈ rest, ∀ m ∈ u.location, l.stop.le m.start = true :=
  fun l here u member => (List.pairwise_cons.1 inOrder.apart).1 u member l here

/-- Only the locations matter that there are. -/
theorem InOrder.of_sublist {tokens tokens' : Tokens} (inOrder : InOrder tokens)
    (fewer : (tokens'.filterMap Token.location).Sublist (tokens.filterMap Token.location)) :
    InOrder tokens' := by
  have locations := List.pairwise_filterMap.2 inOrder.apart
  refine ⟨?_, ?_⟩
  · intro t member l here
    obtain ⟨u, member', there⟩ :=
      List.mem_filterMap.1 (fewer.subset (List.mem_filterMap.2 ⟨t, member, here⟩))
    exact inOrder.forward u member' l there
  · exact List.pairwise_filterMap.1 (locations.sublist fewer)

/-! ## What no pass adds -/

/-- What is read of a token whatever its tag, and of no token that a pass puts in. -/
structure TagBlind {α : Type} (f : Token → Option α) : Prop where
  retag : ∀ t tag, f (t.retag tag) = f t
  generated : ∀ tag t, f (.generated tag t) = none
  explicit : ∀ tag t, f (.explicit tag t) = none

theorem tagBlind_location : TagBlind Token.location :=
  ⟨fun _ _ => rfl, fun _ _ => rfl, fun _ _ => rfl⟩

/-- The location of a token read from source, which it may lack. -/
def Token.sourceLocation? (t : Token) : Option (Option Location) :=
  if t.provenance = .source then some t.location else none

theorem tagBlind_sourceLocation : TagBlind Token.sourceLocation? :=
  ⟨fun _ _ => rfl, fun _ _ => rfl, fun _ _ => rfl⟩

section

variable {α : Type} {f : Token → Option α} {tokens out : Tokens}

theorem filterMap_modify {g : Token → Token} (same : ∀ t, f (g t) = f t) (n : Nat) :
    (tokens.modify n g).filterMap f = tokens.filterMap f := by
  induction tokens generalizing n with
  | nil => cases n <;> rfl
  | cons t rest ih =>
      cases n with
      | zero => simp [List.filterMap_cons, same]
      | succ n => simp [List.filterMap_cons, ih n]

theorem filterMap_insertIdx {t : Token} (nothing : f t = none) (n : Nat) :
    (tokens.insertIdx n t).filterMap f = tokens.filterMap f := by
  induction tokens generalizing n with
  | nil =>
      cases n with
      | zero => simp [nothing]
      | succ n => rfl
  | cons u rest ih =>
      cases n with
      | zero => simp [List.filterMap_cons, nothing]
      | succ n => simp [List.filterMap_cons, ih n]

theorem Closers.filterMap_closeOne (blind : TagBlind f) {construct : Construct}
    {before after closed : Tokens} {opener : Token}
    (done : closeOne construct before opener after = .ok closed) :
    closed.filterMap f = after.filterMap f := by
  unfold closeOne at done
  split at done
  · obtain rfl := Except.ok.inj done
    exact filterMap_modify (fun t => blind.retag t _) _
  · obtain rfl := Except.ok.inj done
    exact filterMap_insertIdx (blind.generated _ _) _
  · cases done

theorem Closers.filterMap_closeOnto (blind : TagBlind f) {construct : Construct} {before : Tokens}
    (done : closeOnto construct before tokens [] = .ok out) :
    out.filterMap f = tokens.filterMap f := by
  induction tokens generalizing before out with
  | nil =>
      obtain rfl := Except.ok.inj done
      rfl
  | cons t rest ih =>
      obtain ⟨later, behind, ⟨closed, -, one, rfl⟩ | ⟨-, rfl⟩⟩ := closeOnto_cons_cases done
      · rw [List.filterMap_cons, filterMap_closeOne blind one, ih behind, List.filterMap_cons]
      · rw [List.filterMap_cons, ih behind, List.filterMap_cons]

theorem Conditionals.filterMap_trailed (blind : TagBlind f) (done : trailed tokens = .ok out) :
    out.filterMap f = tokens.filterMap f := by
  have one : ∀ {t u : Token} {after : Tokens}, settle t after = .ok u → f u = f t := by
    intro t u after settled
    rcases settle_cases settled with ⟨rfl, -⟩ | ⟨tag, -, -, rfl⟩
    · rfl
    · exact blind.retag t tag
  have each := forall₂_trailed one done
  clear done
  induction each with
  | nil => rfl
  | cons same _ ih => simp only [List.filterMap_cons, same, ih]

theorem filterMap_pair (f : Token → Option α) (o c : Token) (inside next : Forest Token) :
    (Forest.pair o inside c next).flatten.filterMap f = [o].filterMap f ++
      (inside.flatten.filterMap f ++ ([c].filterMap f ++ next.flatten.filterMap f)) := by
  have parts : (Forest.pair o inside c next).flatten =
      [o] ++ (inside.flatten ++ ([c] ++ next.flatten)) := by simp
  rw [parts, List.filterMap_append, List.filterMap_append, List.filterMap_append]

theorem TagBlind.one (blind : TagBlind f) (t : Token) (tag : Tag) :
    [t.retag tag].filterMap f = [t].filterMap f := by
  rw [List.filterMap_cons, List.filterMap_cons, blind.retag]

theorem TagBlind.none (blind : TagBlind f) (tag : Tag) (t : Token) :
    [Token.generated tag t].filterMap f = [] := by
  rw [List.filterMap_cons, blind.generated]
  rfl

theorem Braces.sublist_dress (blind : TagBlind f) (before : Tokens) (o c : Token)
    {inside inner : Forest Token}
    (within : (inner.flatten.filterMap f).Sublist (inside.flatten.filterMap f)) :
    ((dress before o inside inner c).flatten.filterMap f).Sublist
      ((Forest.pair o inside c .nil).flatten.filterMap f) := by
  have around : ∀ {between : Tokens}, (between.filterMap f).Sublist (inside.flatten.filterMap f) →
      ([o].filterMap f ++ (between.filterMap f ++ ([c].filterMap f ++ []))).Sublist
        ((Forest.pair o inside c .nil).flatten.filterMap f) := by
    intro between fewer
    rw [filterMap_pair]
    exact (List.Sublist.refl _).append (fewer.append (.refl _))
  simp only [dress]
  split
  · rw [filterMap_pair, blind.one, blind.one]
    exact around (List.nil_sublist _)
  · split
    · split
      · rw [filterMap_pair, filterMap_pair, blind.none, blind.none, blind.one, blind.one]
        simpa using around within
      · rw [filterMap_pair, blind.one, blind.one]
        exact around within
    · rw [filterMap_pair]
      exact around within

/-- Only the colon of an empty mapping is lost. -/
theorem Braces.sublist_mark (blind : TagBlind f) (before : Tokens) (forest : Forest Token) :
    ((mark before forest).flatten.filterMap f).Sublist (forest.flatten.filterMap f) := by
  induction forest generalizing before with
  | nil => exact .refl _
  | leaf t next ih =>
      have parts : ∀ next : Forest Token, (Forest.leaf t next).flatten.filterMap f =
          [t].filterMap f ++ next.flatten.filterMap f := by
        intro next
        rw [← List.filterMap_append]
        rfl
      rw [mark, parts, parts]
      exact (List.Sublist.refl _).append (ih _)
  | pair o inside c next ihInside ihNext =>
      have split : (Forest.pair o inside c next).flatten =
          (Forest.pair o inside c .nil).flatten ++ next.flatten := by
        simp
      rw [mark, Forest.flatten_append, split, List.filterMap_append, List.filterMap_append]
      exact (sublist_dress blind _ _ _ (ihInside _)).append (ihNext _)

theorem Statements.filterMap_terminated (blind : TagBlind f) (tokens : Tokens) :
    (terminated tokens).filterMap f = tokens.filterMap f := by
  have nothing : ∀ t next, (due t next).filterMap f = [] := by
    intro t next
    unfold due
    split
    · split
      · simp [blind.explicit]
      · rfl
    · rfl
  induction tokens with
  | nil => rfl
  | cons t rest ih =>
      rw [terminated, List.filterMap_cons, List.filterMap_append, nothing, List.nil_append, ih,
        List.filterMap_cons]

/-- Of what is read so, the passes before the last one add nothing and change no order. -/
theorem Resolver.sublist_of_passes (blind : TagBlind f)
    {called closed trailing marked : Tokens}
    (calls : Closers.close Closers.call (Statements.dropLeading tokens) = .ok called)
    (indexes : Closers.close Closers.index called = .ok closed)
    (trails : Conditionals.trailed closed = .ok trailing)
    (marks : Braces.markMappings trailing = .ok marked) :
    ((Statements.terminated marked).filterMap f).Sublist (tokens.filterMap f) := by
  obtain ⟨forest, -, -, -, rfl, rfl⟩ := Braces.markMappings_eq_ok_iff.1 marks
  have dropped : ((Statements.dropLeading tokens).filterMap f).Sublist (tokens.filterMap f) :=
    (List.dropWhile_sublist _).filterMap f
  rw [Statements.filterMap_terminated blind]
  refine (Braces.sublist_mark blind [] forest).trans ?_
  rw [Conditionals.filterMap_trailed blind trails, Closers.filterMap_closeOnto blind indexes,
    Closers.filterMap_closeOnto blind calls]
  exact dropped

end

/-! ## Filling in locations -/

namespace Locations

/-- One step keeps the order: the token gets a location that comes after what was passed, and
before what is still to come. -/
theorem settle_inOrder {t : Token} {rest : Tokens} {previous : Option Location} {l : Location}
    (inOrder : InOrder (t :: rest))
    (beyond : ∀ u ∈ t :: rest, ∀ m ∈ u.location, (reach previous).le m.start = true)
    (settled : (settle previous t (rest.head?.bind Token.location)).location = some l) :
    (reach previous).le l.start = true ∧ l.start.le l.stop = true ∧
      ∀ u ∈ rest, ∀ m ∈ u.location, l.stop.le m.start = true := by
  unfold settle at settled
  split at settled
  · exact ⟨beyond t (.head _) l settled, inOrder.forward t (.head _) l settled,
      inOrder.behind l settled⟩
  · obtain rfl := Option.some.inj settled
    refine ⟨?_, Position.le_refl _, ?_⟩
    · show (reach previous).le (place _ _ _) = true
      rcases place_cases t.tag previous (rest.head?.bind Token.location) with here | ⟨m, next, here⟩
      · rw [here]
        exact Position.le_refl _
      · obtain ⟨n, first, there⟩ := Option.bind_eq_some_iff.1 next
        rw [here]
        exact beyond n (.tail _ (List.mem_of_head? first)) m there
    · intro u member m there
      show (place _ _ _).le m.start = true
      rcases place_cases t.tag previous (rest.head?.bind Token.location) with here | ⟨m', next, here⟩
      · rw [here]
        exact beyond u (.tail _ member) m there
      · -- the token after it is the one that comes first of those to come
        obtain ⟨n, first, there'⟩ := Option.bind_eq_some_iff.1 next
        obtain ⟨later, rfl⟩ := List.head?_eq_some_iff.1 first
        rw [here]
        rcases List.mem_cons.1 member with rfl | further
        · obtain rfl := Option.some.inj (there'.symm.trans there)
          exact Position.le_refl _
        · exact Position.le_trans (inOrder.tail.forward n (.head _) m' there')
            (inOrder.tail.behind m' there' u further m there)

/-- Tokens read from source stay where they are. -/
theorem filterMap_settleFrom (previous : Option Location) (tokens : Tokens) :
    (settleFrom previous tokens).filterMap Token.sourceLocation? =
      tokens.filterMap Token.sourceLocation? := by
  have same : ∀ previous next t,
      (settle previous t next).sourceLocation? = t.sourceLocation? := by
    intro previous next t
    unfold settle
    split
    · rfl
    · rename_i needed
      have made : t.provenance ≠ .source := by
        simp only [Bool.or_eq_true, not_or, Token.isSynthesized] at needed
        simpa using needed.2
      rw [Token.sourceLocation?, Token.sourceLocation?, if_neg made]
      exact if_neg made
  induction tokens generalizing previous with
  | nil => rfl
  | cons t rest ih => simp only [settleFrom, List.filterMap_cons, same, ih]

/-- **Filling in locations keeps the order**, where it leaves no token without one. -/
theorem inOrder_settleFrom {tokens : Tokens} {previous : Option Location} (inOrder : InOrder tokens)
    (beyond : ∀ t ∈ tokens, ∀ l ∈ t.location, (reach previous).le l.start = true)
    (located : ∀ t ∈ settleFrom previous tokens, t.location.isSome = true) :
    InOrder (settleFrom previous tokens) ∧
      ∀ t ∈ settleFrom previous tokens, ∀ l ∈ t.location, (reach previous).le l.start = true := by
  induction tokens generalizing previous with
  | nil => exact ⟨inOrder, beyond⟩
  | cons t rest ih =>
      obtain ⟨l, settled⟩ := Option.isSome_iff_exists.1 (located _ (.head _))
      obtain ⟨after, forward, before⟩ := settle_inOrder inOrder beyond settled
      have onward := @ih (some l) inOrder.tail before
      simp only [settleFrom, settled] at located ⊢
      obtain ⟨later, behind⟩ := onward fun u member => located u (.tail _ member)
      refine ⟨⟨?_, List.pairwise_cons.2 ⟨?_, later.apart⟩⟩, ?_⟩
      · rintro u (- | ⟨_, member⟩) m there
        · obtain rfl := Option.some.inj (settled.symm.trans there)
          exact forward
        · exact later.forward u member m there
      · intro u member m here
        obtain rfl := Option.some.inj (settled.symm.trans here)
        exact behind u member
      · rintro u (- | ⟨_, member⟩) m there
        · obtain rfl := Option.some.inj (settled.symm.trans there)
          exact after
        · exact Position.le_trans (Position.le_trans after forward) (behind u member m there)

end Locations

namespace Resolver

/-- **Locations stay in source order.**  If the locations of a stream are in source order and no
token that was read from source lacks one, then every token of its outcome has a location, and
these are in source order. -/
theorem run_inOrder (tokens out : Tokens)
    (located : ∀ t ∈ tokens, t.provenance = .source → t.location.isSome = true)
    (inOrder : InOrder tokens) (done : full.run tokens = .ok out) :
    (∀ t ∈ out, t.location.isSome = true) ∧ InOrder out := by
  obtain ⟨called, closed, trailing, marked, calls, indexes, trails, marks, rfl⟩ :=
    runPasses_order_eq_ok_iff.1 (full_run_eq_ok_iff.1 done).1
  have ordered := inOrder.of_sublist
    (sublist_of_passes tagBlind_location calls indexes trails marks)
  have sources := sublist_of_passes tagBlind_sourceLocation calls indexes trails marks
  rw [← Locations.filterMap_settleFrom none] at sources
  have everywhere : ∀ t ∈ Locations.backfill (Statements.terminated marked),
      t.location.isSome = true := by
    intro t member
    rcases Locations.settleFrom_placed none _ t member with placed | source
    · exact placed
    · have read : t.sourceLocation? = some t.location := if_pos source
      obtain ⟨s, member', read'⟩ :=
        List.mem_filterMap.1 (sources.subset (List.mem_filterMap.2 ⟨t, member, read⟩))
      unfold Token.sourceLocation? at read'
      by_cases source' : s.provenance = .source
      · rw [if_pos source'] at read'
        rw [← Option.some.inj read']
        exact located s member' source'
      · rw [if_neg source'] at read'
        cases read'
  have beyond : ∀ t ∈ Statements.terminated marked, ∀ l ∈ t.location,
      (Locations.reach none).le l.start = true := fun _ _ l _ => Position.zero_le l.start
  exact ⟨everywhere, (Locations.inOrder_settleFrom ordered beyond everywhere).1⟩

/-- The class and the call are on one line, so everything inserted there is too. -/
theorem run_inOrder_classAndCall :
    (∀ t ∈ classAndCall, t.provenance = .source → t.location.isSome = true) ∧
      InOrder classAndCall ∧ ∃ out, full.run classAndCall = .ok out ∧
        (∀ t ∈ out, t.location.isSome = true) ∧ InOrder out := by
  have located : ∀ t ∈ classAndCall, t.provenance = .source → t.location.isSome = true := by
    decide
  have inOrder : InOrder classAndCall := ⟨by decide, by decide⟩
  exact ⟨located, inOrder, _, rfl, run_inOrder classAndCall _ located inOrder rfl⟩

end Resolver

end TokenLayout
