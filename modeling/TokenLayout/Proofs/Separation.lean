/-
# TokenLayout.Proofs.Separation -- statements resolve apart from each other

Two explicitly closed streams with a terminator between, the seam, resolve as each does
alone.  Each pass that looks at more than one token stops at the seam, or learns there what
the end of the stream would have told it:

* a construct is closed where its own closer stands (`Closers.closeOnto_closed`);
* a condition that reaches the seam trails, as it does at the end of the stream
  (`Conditionals.isTrailing_seam`);
* braces find each other on one side of the seam, and the two tokens before a brace that
  may open a class are the terminator and the last token of the first stream
  (`Braces.markMappings_seam`);
* no terminator is due in front of a terminator (`Statements.terminated_seam`).

Main statement: `Resolver.run_statements`.
-/
import TokenLayout.Proofs.Acceptance

namespace TokenLayout

set_option autoImplicit false

open List (Forall₂)

/-! ## The last token -/

/-- The token does not make a brace behind it a class body. -/
def Token.Plain (t : Token) : Prop :=
  t.tag ≠ .classWord ∧ t.tag ≠ .extendsWord

/-- The stream does not end in a word that makes a brace behind it a class body. -/
def EndsPlain (tokens : Tokens) : Prop :=
  ∀ t ∈ tokens.getLast?, t.Plain

theorem Token.Retagged.plain {t u : Token} (retagged : t.Retagged u) (plain : t.Plain) :
    u.Plain := by
  have fixed : ∀ p ∈ Tag.retags, p.2 ≠ .classWord ∧ p.2 ≠ .extendsWord := by decide
  constructor
  · intro word
    rw [retagged.eq (by rw [word]; exact fun p member => (fixed p member).1)] at plain
    exact plain.1 word
  · intro word
    rw [retagged.eq (by rw [word]; exact fun p member => (fixed p member).2)] at plain
    exact plain.2 word

theorem endsPlain_append {back : Tokens} (some : back ≠ []) (front : Tokens) :
    EndsPlain (front ++ back) ↔ EndsPlain back := by
  rw [EndsPlain, List.getLast?_append_of_ne_nil _ some, EndsPlain]

theorem endsPlain_single {t : Token} : EndsPlain [t] ↔ t.Plain := by
  simp [EndsPlain]

theorem EndsPlain.retagged {tokens tokens' : Tokens} (plain : EndsPlain tokens)
    (retagged : Forall₂ Token.Retagged tokens tokens') : EndsPlain tokens' := by
  induction retagged with
  | nil => exact plain
  | @cons t u rest rest' one later ih =>
      cases later with
      | nil => exact endsPlain_single.2 (one.plain (endsPlain_single.1 plain))
      | cons =>
          refine (endsPlain_append (List.cons_ne_nil _ _) [u]).2 (ih ?_)
          exact (endsPlain_append (List.cons_ne_nil _ _) [t]).1 plain

/-! ## Leading terminators -/

namespace Statements

/-- Behind a token that is no terminator nothing leads any more. -/
theorem dropLeading_append {front : Tokens} (some : ∃ t ∈ front, t.tag ≠ .terminator)
    (back : Tokens) :
    dropLeading (front ++ back) = dropLeading front ++ back ∧
      (EndsPlain front → EndsPlain (dropLeading front)) := by
  obtain ⟨t, member, other⟩ := some
  induction front with
  | nil => cases member
  | cons u front ih =>
      by_cases leading : u.tag = .terminator
      · rcases List.mem_cons.1 member with rfl | later
        · exact absurd leading other
        · obtain ⟨same, plain⟩ := ih later
          have behind : dropLeading (u :: front) = dropLeading front := by
            simp [leading]
          refine ⟨?_, fun ends => ?_⟩
          · rw [behind, ← same]
            simp [leading]
          · rw [behind]
            exact plain ((endsPlain_append (List.ne_nil_of_mem later) [u]).1 ends)
      · have stays : ∀ rest, dropLeading (u :: rest) = u :: rest := by
          simp [leading]
        rw [List.cons_append, stays, stays]
        exact ⟨rfl, id⟩

end Statements

/-! ## Constructs -/

namespace Closers

variable {construct : Construct}

/-- A closed forest in which each construct has its dedicated closer. -/
def sealed (construct : Construct) : Forest Token → Forest Token
  | .nil => .nil
  | .leaf t next => .leaf t (sealed construct next)
  | .pair o inside c next =>
      .pair o (sealed construct inside)
        (if o.tag = construct.opener then c.retag construct.closer else c) (sealed construct next)

theorem sealed_append (forest after : Forest Token) :
    sealed construct (forest.append after) =
      (sealed construct forest).append (sealed construct after) := by
  induction forest with
  | nil => rfl
  | leaf t next ih => simp only [Forest.append, sealed, ih]
  | pair o inside c next _ ih => simp only [Forest.append, sealed, ih]

theorem closed_sealed (regular : construct.Regular) {forest : Forest Token}
    (closed : forest.Closed) : (sealed construct forest).Closed := by
  induction forest with
  | nil => trivial
  | leaf t next ih => exact ⟨closed.1, ih closed.2⟩
  | pair o inside c next ihInside ihNext =>
      obtain ⟨pair, inner, outer⟩ := closed
      refine ⟨?_, ihInside inner, ihNext outer⟩
      split
      · rename_i opens
        exact .inl ⟨pair.isOpener, by rw [opens]; exact regular.partner⟩
      · exact pair

/-- What closes a construct is one of its closers. -/
theorem own_of_closedBy (regular : construct.Regular) {o c : Token} (pair : o.ClosedBy c)
    (opens : o.tag = construct.opener) : c.tag ∈ construct.own := by
  have partner := regular.partner
  rw [← opens] at partner
  rcases pair with ⟨-, same⟩ | ⟨call, paren⟩ | ⟨index, bracket⟩
  · rw [partner] at same
    simp [Option.some.inj same]
  · rw [call] at partner
    have closer : Tag.callEnd = construct.closer := Option.some.inj partner
    simp [← closer, plain, paren]
  · rw [index] at partner
    have closer : Tag.indexEnd = construct.closer := Option.some.inj partner
    simp [← closer, plain, bracket]

/-- Every construct of a closed forest is closed by the closer it has. -/
theorem closeOnto_closed (regular : construct.Regular) {forest : Forest Token}
    (closed : forest.Closed) (before rest : Tokens) :
    closeOnto construct before forest.flatten rest =
      .ok ((sealed construct forest).flatten ++ rest) := by
  have isOpener := regular.opens
  induction forest generalizing before rest with
  | nil => rfl
  | leaf t next ih =>
      have other : t.tag ≠ construct.opener := by
        intro opens
        rw [← opens, closed.1.1] at isOpener
        cases isOpener
      exact closeOnto_cons_other other (ih closed.2 (t :: before) rest)
  | pair o inside c next ihInside ihNext =>
      obtain ⟨pair, inner, outer⟩ := closed
      have other : c.tag ≠ construct.opener := by
        intro opens
        rw [← opens, Tag.isOpener_of_isCloser pair.brackets.2] at isOpener
        cases isOpener
      have within : closeOnto construct (o :: before) (inside.flatten ++ c :: next.flatten) rest =
          .ok ((sealed construct inside).flatten ++
            c :: ((sealed construct next).flatten ++ rest)) := by
        rw [closeOnto_append (closeOnto_cons_other other (ihNext outer _ rest))]
        exact ihInside inner (o :: before) _
      simp only [Forest.flatten, sealed, List.cons_append, List.append_assoc]
      by_cases opens : o.tag = construct.opener
      · have own := own_of_closedBy regular pair opens
        have level : (sealed construct inside).Level := (closed_sealed regular inner).level
        rw [if_pos opens]
        exact closeOnto_cons_opener opens within (closeOne_of_stop regular.atClosers level
          (regular.ends_own own) fun outdent => regular.notOutdent (outdent ▸ own))
      · rw [if_neg opens]
        exact closeOnto_cons_other opens within

theorem close_eq_sealed (regular : construct.Regular) {forest : Forest Token}
    (closed : forest.Closed) :
    close construct forest.flatten = .ok (sealed construct forest).flatten := by
  rw [close, closeOnto_closed regular closed, List.append_nil]

/-- A closed forest after both closing passes. -/
def dedicated (forest : Forest Token) : Forest Token :=
  sealed index (sealed call forest)

theorem dedicated_append (forest after : Forest Token) :
    dedicated (forest.append after) = (dedicated forest).append (dedicated after) := by
  rw [dedicated, sealed_append, sealed_append, dedicated, dedicated]

theorem close_eq_dedicated {forest : Forest Token} (closed : forest.Closed) :
    close call forest.flatten = .ok (sealed call forest).flatten ∧
      close index (sealed call forest).flatten = .ok (dedicated forest).flatten :=
  ⟨close_eq_sealed call_regular closed,
    close_eq_sealed index_regular (closed_sealed call_regular closed)⟩

/-- The closing passes only retag. -/
theorem retagged_dedicated {forest : Forest Token} (closed : forest.Closed) :
    Forall₂ Token.Retagged forest.flatten (dedicated forest).flatten := by
  obtain ⟨called, balanced, calls, indexes, -, retagged⟩ := close_closed ⟨forest, closed, rfl⟩
  obtain ⟨calls', indexes'⟩ := close_eq_dedicated closed
  rw [calls'] at calls
  obtain rfl := Except.ok.inj calls
  rw [indexes'] at indexes
  obtain rfl := Except.ok.inj indexes
  exact retagged

/-- Behind them no region of any kind is left open. -/
theorem ends_dedicated {forest : Forest Token} (closed : forest.Closed) (stop : Condition)
    (left right : Tokens) (split : (dedicated forest).flatten = left ++ right) :
    Region.Ends stop right := by
  have nests := closed_sealed index_regular (closed_sealed call_regular closed)
  have nothing : Region.Ends stop [] := Region.ends_nil
  have within := nothing.within nests.level split
  rwa [List.append_nil] at within

end Closers

/-! ## Conditionals -/

namespace Conditionals

variable {t : Token}

/-- A region that reaches the seam stops there, and without what follows it would have ended
implicitly. -/
theorem ending_seam (terminator : t.tag = .terminator) (later : Tokens)
    (opened : List (Nat × Token)) (before : Tokens) (index : Nat) (front : Tokens)
    (ends : ∀ i o, (Region.scan endsCondition opened before index front).ending ≠
      .unclosed i o) :
    (Region.scan endsCondition opened before index (front ++ t :: later)).ending =
        (Region.scan endsCondition opened before index front).ending ∨
      ∃ i, (Region.scan endsCondition opened before index front).ending = .implicit i ∧
        (Region.scan endsCondition opened before index (front ++ t :: later)).ending =
          .stop i t := by
  induction front generalizing opened before index with
  | nil =>
      cases opened with
      | nil =>
          refine .inr ⟨index, rfl, ?_⟩
          rw [List.nil_append, Region.ending_stop]
          simp [endsCondition, terminator]
      | cons o outer =>
          exfalso
          cases last : (o :: outer).getLast? with
          | none => simp at last
          | some first =>
              refine ends first.1 first.2 ?_
              simp [Region.scan, last]
  | cons u front ih =>
      have same : endsCondition before u (front ++ t :: later) = endsCondition before u front := rfl
      simp only [List.cons_append, Region.ending_cons, same] at ends ⊢
      split
      · exact .inl rfl
      · rename_i goesOn
        rw [if_neg goesOn] at ends
        split
        · rename_i opens
          rw [if_pos opens] at ends
          exact ih _ _ _ ends
        · rename_i notOpener
          rw [if_neg notOpener] at ends
          split
          · rename_i closes
            rw [if_pos closes] at ends
            cases opened with
            | nil => exact .inl rfl
            | cons o outer => exact ih _ _ _ ends
          · rename_i notCloser
            rw [if_neg notCloser] at ends
            exact ih _ _ _ ends

/-- A condition that reaches the seam trails, as it does at the end of the stream. -/
theorem isTrailing_seam (terminator : t.tag = .terminator) (before front later : Tokens)
    (ends : Region.Ends endsCondition front) :
    isTrailing before (front ++ t :: later) = isTrailing before front := by
  have notBody : ownsBody t = false := by simp [ownsBody, terminator]
  unfold isTrailing Region.after
  rcases ending_seam terminator later [] before 0 front (ends before 0) with
    same | ⟨i, implicit, stops⟩
  · rw [same]
  · rw [implicit, stops]
    simp [notBody]

/-- The conditionals on each side of the seam are told apart as without the other side. -/
theorem trailed_seam (terminator : t.tag = .terminator) {front front' back back' : Tokens}
    (ends : ∀ left right, front = left ++ right → Region.Ends endsCondition right)
    (done : trailed front = .ok front') (done' : trailed back = .ok back') :
    trailed (front ++ t :: back) = .ok (front' ++ t :: back') := by
  induction front generalizing front' with
  | nil =>
      obtain rfl := Except.ok.inj done
      have kept : settle t back = .ok t := by
        simp only [settle, terminator, trailing?]
      simp [trailed, kept, done', Except.map]
  | cons u front ih =>
      obtain ⟨w, out, settled, later, rfl⟩ := trailed_cons_cases done
      have onward := ih (fun left right split => ends (u :: left) right (by rw [split]; rfl)) later
      have same : settle u (front ++ t :: back) = .ok w := by
        rw [← settled]
        unfold settle
        rw [isTrailing_seam terminator [u] front back (ends [u] front rfl)]
      simp only [List.cons_append, trailed, same, onward]
      rfl

end Conditionals

/-! ## Mappings -/

namespace Braces

theorem mark_eq_nil_iff {before : Tokens} {forest : Forest Token} :
    mark before forest = .nil ↔ forest = .nil := by
  cases forest with
  | nil => simp [mark]
  | leaf t next => simp [mark]
  | pair o inside c next =>
      obtain ⟨o', inner, c', pair⟩ := exists_dress_eq before o c inside (mark (o :: before) inside)
      simp [mark, pair]

theorem plain_of_isCloseBrace {t : Token} (closes : t.tag.isCloseBrace = true) : t.Plain := by
  have tags : ∀ tag : Tag, tag.isCloseBrace = true → tag ≠ .classWord ∧ tag ≠ .extendsWord := by
    intro tag
    cases tag <;> decide
  exact tags t.tag closes

/-- The pass leaves a stream that ends in a class word only where there was one. -/
theorem endsPlain_mark {forest : Forest Token} (loose : forest.Loose) (before : Tokens)
    (plain : EndsPlain forest.flatten) : EndsPlain (mark before forest).flatten := by
  have some : ∀ {next : Forest Token}, next ≠ .nil → next.flatten ≠ [] :=
    mt Forest.flatten_eq_nil_iff.1
  induction forest generalizing before with
  | nil => exact plain
  | leaf t next ih =>
      by_cases last : next = .nil
      · subst last
        exact plain
      · have onward := ih loose (t :: before) ((endsPlain_append (some last) [t]).1 plain)
        exact (endsPlain_append (some (mt mark_eq_nil_iff.1 last)) [t]).2 onward
  | pair o inside c next _ ih =>
      obtain ⟨braces, inner, outer⟩ := loose
      simp only [mark, Forest.flatten_append]
      by_cases last : next = .nil
      · -- the pair comes last, and it ends in a brace
        have dressed : (dress before o inside (mark (o :: before) inside) c).Braced :=
          dress_braced braces (mark_braced inner _)
        obtain ⟨o', inner', c', pair⟩ :=
          exists_dress_eq before o c inside (mark (o :: before) inside)
        rw [pair] at dressed ⊢
        have closer : EndsPlain [c'] := endsPlain_single.2 (plain_of_isCloseBrace dressed.1.2)
        simpa [last, mark] using
          (endsPlain_append (List.cons_ne_nil c' []) (o' :: inner'.flatten)).2 closer
      · refine (endsPlain_append (some (mt mark_eq_nil_iff.1 last)) _).2 (ih outer _ ?_)
        have behind : Forest.flatten (.pair o inside c next) =
            (o :: (inside.flatten ++ [c])) ++ next.flatten := by
          simp
        rw [behind] at plain
        exact (endsPlain_append (some last) _).1 plain

/-- The first brace behind the seam is told of no class. -/
theorem alike_seam {t : Token} (terminator : t.tag = .terminator) {front : Tokens}
    (plain : EndsPlain front) : Alike (t :: front.reverse) [] := by
  have noWord : (t.tag == .classWord || t.tag == .extendsWord) = false := by simp [terminator]
  have last : ∀ u ∈ front.reverse.head?,
      (u.tag == .classWord || u.tag == .extendsWord) = false := by
    intro u first
    rw [List.head?_reverse] at first
    simpa [Token.Plain] using plain u first
  intro more
  rcases more with - | ⟨u, - | ⟨w, more⟩⟩
  · cases back : front.reverse with
    | nil => simp [opensClassBody, noWord]
    | cons u rest => simp [opensClassBody, noWord, last u (by rw [back]; rfl)]
  · simp [opensClassBody, noWord]
  · simp [opensClassBody]

/-- Braces on each side of the seam are marked as without the other side. -/
theorem markMappings_seam {t : Token} (terminator : t.tag = .terminator)
    {front front' back back' : Tokens} (plain : EndsPlain front)
    (done : markMappings front = .ok front') (done' : markMappings back = .ok back') :
    markMappings (front ++ t :: back) = .ok (front' ++ t :: back') := by
  obtain ⟨left, loose, -, noColon, rfl, rfl⟩ := markMappings_eq_ok_iff.1 done
  obtain ⟨right, loose', -, noColon', rfl, rfl⟩ := markMappings_eq_ok_iff.1 done'
  have whole : (left.append (.leaf t right)).Loose := loose.append loose'
  have none : hasColon (left.append (.leaf t right)) = false := by
    have behind : hasColon (.leaf t right) = hasColon right := by
      simp [terminator]
    rw [hasColon_append, noColon, behind, noColon']
    rfl
  have marked := markMappings_eq_mark whole none
  have seam := alike_seam terminator (endsPlain_mark loose [] plain)
  rw [Forest.flatten_append, mark_append, Forest.flatten_append] at marked
  simp only [Forest.flatten, mark, List.append_nil] at marked
  rwa [mark_congr seam] at marked

end Braces

/-! ## Terminators -/

/-- No terminator is due on either side of the seam. -/
theorem Statements.terminated_seam {t : Token} (terminator : t.tag = .terminator)
    (front back : Tokens) :
    terminated (front ++ t :: back) = terminated front ++ t :: terminated back := by
  induction front with
  | nil =>
      have other : t.tag ≠ .outdent := by simp [terminator]
      simp [terminated, due_other other]
  | cons u front ih =>
      have same : due u (front ++ t :: back).head? = due u front.head? := by
        cases front with
        | nil =>
            have continues : continuesBlock t = true := by
              rw [continuesBlock, terminator]
              decide
            simp [due, continues]
        | cons => rfl
      rw [List.cons_append, terminated, same, ih, terminated, List.cons_append, List.append_assoc]

/-! ## Runs -/

namespace Resolver

open Closers (dedicated close_eq_dedicated)

variable {front back : Tokens} {t : Token}

/-- The first four passes on a stream that is closed behind its leading terminators. -/
theorem runPasses_dedicated {tokens out : Tokens} {forest : Forest Token} (closed : forest.Closed)
    (flat : forest.flatten = Statements.dropLeading tokens)
    (trails : Conditionals.trailed (dedicated forest).flatten = .ok out) :
    runPasses (Pass.order.take 4) tokens = .ok out := by
  obtain ⟨calls, indexes⟩ := close_eq_dedicated closed
  rw [flat] at calls
  have fourth : Pass.trailingConditionals.apply (dedicated forest).flatten = .ok out := by
    rw [Pass.apply, Conditionals.markTrailing_eq_trailed, trails]
  have split : Pass.order.take 4 = Pass.order.take 3 ++ [.trailingConditionals] := rfl
  rw [split, runPasses_append (runPasses_closers_eq calls indexes), runPasses_cons_eq fourth]
  rfl

/-- The first four passes do not look across the seam. -/
theorem runPasses_seam (terminator : t.tag = .terminator) (closed : ExplicitlyClosed front)
    (closed' : ExplicitlyClosed back) (some : ∃ u ∈ front, u.tag ≠ .terminator)
    (plain : EndsPlain front) (starts : Starts back) :
    ∃ left right, runPasses (Pass.order.take 4) front = .ok left ∧
      runPasses (Pass.order.take 4) back = .ok right ∧
      runPasses (Pass.order.take 4) (front ++ t :: back) = .ok (left ++ t :: right) ∧
      EndsPlain left := by
  obtain ⟨dropped, plainBehind⟩ := Statements.dropLeading_append some (t :: back)
  obtain ⟨forest, nests, rfl⟩ := closed
  obtain ⟨first, nests, flat⟩ := nests.dropLeading
  obtain ⟨second, nests', rfl⟩ := closed'
  have alone : t.Alone := by
    rw [Token.Alone, terminator]
    decide
  have ends := Closers.ends_dedicated nests Conditionals.endsCondition
  obtain ⟨left, trails⟩ := Conditionals.exists_trailed ends
  obtain ⟨right, trails'⟩ := Conditionals.exists_trailed
    (Closers.ends_dedicated nests' Conditionals.endsCondition)
  refine ⟨left, right, runPasses_dedicated nests flat trails,
    runPasses_dedicated nests' ?_ trails', ?_, ?_⟩
  · rw [Statements.dropLeading_eq_self starts]
  · have closed : (first.append (.leaf t second)).Closed :=
      Forest.nests_append nests ⟨alone, nests'⟩
    refine runPasses_dedicated closed ?_ ?_
    · rw [Forest.flatten_append, Forest.flatten, flat, dropped]
    · rw [Closers.dedicated_append, Forest.flatten_append]
      exact Conditionals.trailed_seam terminator ends trails trails'
  · have behind : EndsPlain first.flatten := by
      rw [flat]
      exact plainBehind plain
    have closed := behind.retagged (Closers.retagged_dedicated nests)
    exact closed.retagged (Conditionals.retagged_trailed trails)

/-- The first colon outside all braces is that of the first statement that has one. -/
theorem outside?_seam (terminator : t.tag = .terminator) (closed : ExplicitlyClosed front)
    (back : Tokens) :
    Braces.outside? 0 (front ++ t :: back) =
      (Braces.outside? 0 front).or (Braces.outside? 0 back) := by
  obtain ⟨forest, nests, rfl⟩ := closed
  have noBrace : t.NoBrace := by
    rw [Token.NoBrace, terminator]
    decide
  have other : t.tag ≠ .colon := by simp [terminator]
  rw [← Forest.flatten_braces, Braces.outside?_flatten_append nests.braces,
    Braces.outside?_noBrace noBrace other, Braces.outside?_flatten nests.braces, if_pos rfl]

theorem runPasses_order_of_four {tokens four : Tokens}
    (ran : runPasses (Pass.order.take 4) tokens = .ok four) :
    runPasses Pass.order tokens = (Braces.markMappings four).map fun marked =>
      Locations.backfill (Statements.terminated marked) :=
  (runPasses_append ran).trans (runPasses_mappings_eq four)

/-- What both statements resolve to, with the terminator between. -/
theorem run_statements_eq (terminator : t.tag = .terminator) {four right : Tokens}
    (plain : EndsPlain four) (first : runPasses (Pass.order.take 4) front = .ok four)
    (second : runPasses (Pass.order.take 4) back = .ok right)
    (whole : runPasses (Pass.order.take 4) (front ++ t :: back) = .ok (four ++ t :: right))
    {left' right' out : Tokens} (done : full.run front = .ok left')
    (done' : full.run back = .ok right') (ran : full.run (front ++ t :: back) = .ok out) :
    out.map Locations.unplaced = (left' ++ t :: right').map Locations.unplaced := by
  have passes := (full_run_eq_ok_iff.1 done).1
  have passes' := (full_run_eq_ok_iff.1 done').1
  have ran := (full_run_eq_ok_iff.1 ran).1
  rw [runPasses_order_of_four first] at passes
  rw [runPasses_order_of_four second] at passes'
  rw [runPasses_order_of_four whole] at ran
  cases marks : Braces.markMappings four with
  | error fault =>
      rw [marks] at passes
      cases passes
  | ok marked =>
      cases marks' : Braces.markMappings right with
      | error fault =>
          rw [marks'] at passes'
          cases passes'
      | ok marked' =>
          rw [marks] at passes
          rw [marks'] at passes'
          rw [Braces.markMappings_seam terminator plain marks marks'] at ran
          obtain rfl := Except.ok.inj passes
          obtain rfl := Except.ok.inj passes'
          obtain rfl := Except.ok.inj ran
          simp only [Locations.backfill, Statements.terminated_seam terminator,
            Locations.map_unplaced_settleFrom, List.map_append, List.map_cons]

/-- **Statements resolve apart from each other.**  The first of two explicitly closed streams holds
more than terminators and does not end in a word that opens a class body, and the second does not
start with a terminator.  With a terminator between they resolve just if both do, to what both
resolve to with the terminator between, but for locations.  Otherwise the fault is that of the
first one that fails. -/
theorem run_statements (front back : Tokens) (t : Token) (terminator : t.tag = .terminator)
    (closed : ExplicitlyClosed front) (closed' : ExplicitlyClosed back)
    (some : ∃ u ∈ front, u.tag ≠ .terminator) (plain : EndsPlain front) (starts : Starts back) :
    ((∃ out, full.run (front ++ t :: back) = .ok out) ↔
        (∃ out, full.run front = .ok out) ∧ ∃ out, full.run back = .ok out) ∧
      (∀ left right, full.run front = .ok left → full.run back = .ok right →
        ∃ out, full.run (front ++ t :: back) = .ok out ∧
          out.map Locations.unplaced = (left ++ t :: right).map Locations.unplaced) ∧
      ∀ fault, full.run (front ++ t :: back) = .error fault ↔
        full.run front = .error fault ∨
          (∃ out, full.run front = .ok out) ∧ full.run back = .error fault := by
  have alone : t.Alone := by
    rw [Token.Alone, terminator]
    decide
  have seam := outside?_seam terminator closed back
  have whole : ExplicitlyClosed (front ++ t :: back) := by
    obtain ⟨first, nests, rfl⟩ := closed
    obtain ⟨second, nests', rfl⟩ := closed'
    exact ⟨first.append (.leaf t second), Forest.nests_append nests ⟨alone, nests'⟩,
      Forest.flatten_append ..⟩
  -- which of the three runs fail is told by the colons outside all braces
  rcases run_of_outside closed with ⟨⟨left, done⟩, none⟩ | ⟨u, failed, found⟩
  · rcases run_of_outside closed' with ⟨⟨right, done'⟩, none'⟩ | ⟨u, failed, found⟩
    · rcases run_of_outside whole with ⟨⟨out, ran⟩, -⟩ | ⟨u, -, found⟩
      · refine ⟨by simp [done, done', ran], ?_, by simp [done, done', ran]⟩
        intro left' right' same same'
        obtain ⟨four, right4, first, second, both, plain4⟩ :=
          runPasses_seam terminator closed closed' some plain starts
        exact ⟨out, ran, run_statements_eq terminator plain4 first second both same same' ran⟩
      · rw [seam, none, none'] at found
        cases found
    · rw [none, found] at seam
      rcases run_of_outside whole with ⟨-, none⟩ | ⟨w, blamed, first⟩
      · rw [seam] at none
        cases none
      · rw [seam] at first
        obtain rfl := Option.some.inj first
        simp [done, failed, blamed]
  · rw [found] at seam
    rcases run_of_outside whole with ⟨-, none⟩ | ⟨w, blamed, first⟩
    · rw [seam] at none
      cases none
    · rw [seam] at first
      obtain rfl := Option.some.inj first
      simp [failed, blamed]

/-- A call with an empty mapping for its argument. -/
def callWithMapping : Tokens :=
  [.onFirstLine .callStart 5, .onFirstLineAs .indent "\x7b" 6, .onFirstLine .colon 7,
   .onFirstLineAs .outdent "\x7d" 8, .onFirstLine .parenEnd 9]

/-- A statement with a trailing conditional. -/
def trailingConditional : Tokens :=
  [.onFirstLineAs .identifier "x" 0, .onFirstLine .ifWord 1, .onFirstLineAs .identifier "y" 2]

theorem run_statements_conditionalThenCall :
    ExplicitlyClosed trailingConditional ∧ ExplicitlyClosed callWithMapping ∧
      (∃ u ∈ trailingConditional, u.tag ≠ .terminator) ∧ EndsPlain trailingConditional ∧
      Starts callWithMapping ∧
      ∃ left right out, full.run trailingConditional = .ok left ∧
        full.run callWithMapping = .ok right ∧
        full.run (trailingConditional ++ .onFirstLine .terminator 3 :: callWithMapping) = .ok out ∧
        out.map Locations.unplaced =
          (left ++ .onFirstLine .terminator 3 :: right).map Locations.unplaced := by
  have closed : ExplicitlyClosed trailingConditional :=
    ⟨.leaf (.onFirstLineAs .identifier "x" 0) (.leaf (.onFirstLine .ifWord 1)
        (.leaf (.onFirstLineAs .identifier "y" 2) .nil)),
      ⟨⟨rfl, rfl⟩, ⟨rfl, rfl⟩, ⟨rfl, rfl⟩, trivial⟩, rfl⟩
  have closed' : ExplicitlyClosed callWithMapping :=
    ⟨.pair (.onFirstLine .callStart 5)
        (.pair (.onFirstLineAs .indent "\x7b" 6) (.leaf (.onFirstLine .colon 7) .nil)
          (.onFirstLineAs .outdent "\x7d" 8) .nil)
        (.onFirstLine .parenEnd 9) .nil,
      ⟨.inr (.inl ⟨rfl, rfl⟩), ⟨.inl ⟨rfl, rfl⟩, ⟨⟨rfl, rfl⟩, trivial⟩, trivial⟩, trivial⟩, rfl⟩
  have some : ∃ u ∈ trailingConditional, u.tag ≠ .terminator := ⟨_, .head _, by decide⟩
  have plain : EndsPlain trailingConditional := by
    rintro u last
    obtain rfl := Option.some.inj last
    exact ⟨by decide, by decide⟩
  have starts : Starts callWithMapping := by
    rintro u first
    obtain rfl := Option.some.inj first
    decide
  obtain ⟨-, same, -⟩ := run_statements trailingConditional callWithMapping
    (.onFirstLine .terminator 3) rfl closed closed' some plain starts
  obtain ⟨out, ran, equal⟩ := same _ _ rfl rfl
  exact ⟨closed, closed', some, plain, starts, _, _, out, rfl, rfl, ran, equal⟩

end Resolver

end TokenLayout
