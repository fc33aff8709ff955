/-
# TokenLayout.Proofs.Conditions -- a conditional by its condition

Any expression can be a condition.  When conditionals are told apart, the calls and
indexes in it are closed, so the expression is balanced and a region passes over what
is nested in it; and the one block it may have at its surface is the body of a
function, behind an arrow.  So the region from the keyword reaches what comes after
the condition: the end of the statement for a conditional that trails, its body for
one that leads (`Phrase.whole`).

A mapping is the exception.  Its brace still is a generic one then, it comes right
behind the keyword, and it is taken for the body (`Phrase.leads_mapping`).  So a
conditional in front of a mapping is told to lead whatever comes after the mapping
(`not_trailing_oneMember`).  Main statement: `markTrailing_condition`.
-/
import TokenLayout.Proofs.Decisions
import TokenLayout.Proofs.Restoration

namespace TokenLayout

set_option autoImplicit false

open List (Forall₂)

/-! ## Conditions -/

/-- The expression is a mapping: its first token is a brace. -/
def Phrase.isMapping : Phrase .expression → Bool
  | mapping _ | emptyMapping => true
  | _ => false

/-- The stream of a condition behind this keyword: no terminator and no block breaks it off, and
what comes after it is no one-line body. -/
def Condition.Whole (keyword : Token) (condition : Tokens) : Prop :=
  ∃ forest : Forest Token, forest.Level ∧ forest.flatten = condition ∧
    Conditionals.Unbroken keyword forest ∧
    (condition.getLastD keyword).tag.isSingleLiner = false

namespace Rendering

/-- A pair whose opener is a block's only behind something with a one-line body. -/
theorem Nested.whole {keyword o c : Token} {opener closer : Entry} {inside : Rendering}
    (nested : Nested Repair.closers.done inside)
    (opens : opener.shown Repair.closers.done = [o])
    (closes : closer.shown Repair.closers.done = [c]) (brackets : o.Brackets c)
    (notOneLine : c.tag.isSingleLiner = false)
    (body : o.tag = .indent → keyword.tag.isSingleLiner = true) :
    Condition.Whole keyword
      ((Rendering.enclosed opener inside closer).shown Repair.closers.done) := by
  obtain ⟨forest, nests, flat⟩ := nested
  have shown_ : (Rendering.enclosed opener inside closer).shown Repair.closers.done =
      (o :: forest.flatten) ++ [c] := by
    rw [shown_enclosed opens closes, flat]
    rfl
  refine ⟨.pair o forest c .nil, ⟨brackets, nests.level, trivial⟩, ?_, ⟨body, trivial⟩, ?_⟩
  · rw [shown_]
    rfl
  · rw [shown_, List.getLastD_concat]
    exact notOneLine

/-- A token in front that stands alone and is no terminator. -/
theorem whole_cons {keyword t : Token} {entry : Entry} {rest : Rendering}
    (one : entry.shown Repair.closers.done = [t]) (alone : t.Alone) (goesOn : t.tag ≠ .terminator)
    (whole : Condition.Whole t (rest.shown Repair.closers.done)) :
    Condition.Whole keyword (Rendering.shown Repair.closers.done (entry :: rest)) := by
  obtain ⟨forest, level, flat, unbroken, notOneLine⟩ := whole
  refine ⟨.leaf t forest, ⟨alone, level⟩, ?_, ⟨goesOn, unbroken⟩, ?_⟩
  · rw [shown_cons, one, Forest.flatten, flat]
    rfl
  · rw [shown_cons, one, List.singleton_append, List.getLastD_cons]
    exact notOneLine

theorem whole_single {keyword t : Token} {entry : Entry}
    (one : entry.shown Repair.closers.done = [t]) (alone : t.Alone) (goesOn : t.tag ≠ .terminator)
    (notOneLine : t.tag.isSingleLiner = false) :
    Condition.Whole keyword (Rendering.shown Repair.closers.done [entry]) :=
  whole_cons one alone goesOn ⟨.nil, trivial, rfl, trivial, notOneLine⟩

end Rendering

/-- **An expression is a condition**, unless it is a mapping. -/
theorem Phrase.whole (condition : Phrase .expression) (other : condition.isMapping = false)
    (keyword : Token) : Condition.Whole keyword (condition.rendering.shown Repair.closers.done) := by
  have closers : Repair.closers ∈ Repair.closers.done := by decide
  have named : ∀ text : String, (Token.spelled .identifier text).Alone ∧
      (Token.spelled .identifier text).tag ≠ .terminator :=
    fun text => ⟨⟨rfl, rfl⟩, fun tag => (by cases tag)⟩
  match condition with
  | name text => exact Rendering.whole_single rfl (named text).1 (named text).2 rfl
  | number text =>
      exact Rendering.whole_single (t := .spelled .number text) rfl ⟨rfl, rfl⟩
        (fun tag => by cases tag) rfl
  | group inside =>
      exact (inside.nested closers).whole (o := .bare .parenStart) (c := .bare .parenEnd) rfl rfl
        ⟨rfl, rfl⟩ rfl fun tag => by cases tag
  | call callee arguments =>
      refine Rendering.whole_cons rfl (named callee).1 (named callee).2 ?_
      exact (arguments.nested closers).whole (o := .bare .callStart) (c := .bare .callEnd) rfl rfl
        ⟨rfl, rfl⟩ rfl fun tag => by cases tag
  | index base inside =>
      refine Rendering.whole_cons rfl (named base).1 (named base).2 ?_
      exact (inside.nested closers).whole (o := .bare .indexStart) (c := .bare .indexEnd) rfl rfl
        ⟨rfl, rfl⟩ rfl fun tag => by cases tag
  | function body =>
      -- the arrow in front of the block makes it a one-line body
      refine Rendering.whole_cons (t := .bare .arrow) rfl ⟨rfl, rfl⟩ (fun tag => by cases tag) ?_
      exact (body.nested closers).whole (o := .bare .indent) (c := .bare .outdent) rfl rfl
        ⟨rfl, rfl⟩ rfl fun _ => rfl

/-- The brace of a mapping is taken for the body of the conditional in front of it. -/
theorem Phrase.leads_mapping {condition : Phrase .expression} (mapping : condition.isMapping = true)
    {keyword : Token} (word : keyword.tag.isSingleLiner = false) (rest : Tokens) :
    Conditionals.LeadsBody keyword (condition.rendering.shown Repair.closers.done ++ rest) := by
  have source : ∀ inside : Rendering, Conditionals.LeadsBody keyword
      ((Rendering.mapping inside).shown Repair.closers.done ++ rest) := by
    intro inside
    have shown_ : (Rendering.mapping inside).shown Repair.closers.done =
        .spelled .indent "\x7b" ::
          (inside.shown Repair.closers.done ++ [.spelled .outdent "\x7d"]) :=
      Rendering.shown_enclosed rfl rfl inside
    rw [shown_]
    exact ⟨.nil, _, _, trivial, rfl, trivial, rfl, word, .inl fun generated => by cases generated⟩
  match condition with
  | .mapping members => exact source _
  | .emptyMapping => exact source _

namespace Conditionals

/-! ## What becomes of the keyword -/

/-- The pass makes this of the token in front of these others.  It is not at fault if the pass
fails, and if the stream is balanced the pass does not. -/
structure Becomes (front : Tokens) (t : Token) (after : Tokens) (u : Token) : Prop where
  makes : ∀ out, markTrailing (front ++ t :: after) = .ok out → out[front.length]? = some u
  blameless : ∀ fault, markTrailing (front ++ t :: after) = .error fault →
    ∃ i opener, i ≠ front.length ∧ StaysOpen (front ++ t :: after) i opener ∧
      fault = .ofUnclosed opener
  succeeds : ensureBalance (front ++ t :: after) = .ok () →
    ∃ out, markTrailing (front ++ t :: after) = .ok out

theorem becomes_of_settle {t u : Token} {after : Tokens} (settled : settle t after = .ok u)
    (front : Tokens) : Becomes front t after u := by
  have ends : ∀ o, ¬StaysOpen (front ++ t :: after) front.length o := by
    intro o stays
    have visited := visitAt_open stays
    rw [visitAt_append, settled] at visited
    cases visited
  refine ⟨fun out done => ?_, fun fault failed => ?_, fun balanced => ?_⟩
  · obtain ⟨-, rfl⟩ := markTrailing_eq_ok_iff.1 done
    have same := Except.ok.inj (settled.symm.trans (settle_eq_decided ends))
    rw [List.getElem?_mapIdx, List.getElem?_append_right (Nat.le_refl _), Nat.sub_self, same]
    rfl
  · obtain ⟨i, opener, stays, blamed⟩ := exists_of_markTrailing_error failed
    refine ⟨i, opener, ?_, stays, blamed⟩
    rintro rfl
    exact ends opener stays
  · exact ⟨_, markTrailing_eq_ok_iff.2 ⟨not_staysOpen_of_balanced balanced, rfl⟩⟩

/-- A keyword settles by whether it trails. -/
theorem settle_keyword {t : Token} {negated : Bool} (word : t.tag = keyword negated)
    {after : Tokens} {trails : Bool} (told : isTrailing [t] after = .ok trails) :
    settle t after = .ok (if trails then t.retag (trailingKeyword negated) else t) := by
  have tag : trailing? t.tag = some (trailingKeyword negated) := by
    rw [word]
    cases negated <;> rfl
  rw [settle, tag]
  simp only [told]
  rfl

/-- Streams that read alike tell a conditional alike. -/
theorem isTrailing_sameEntry {t : Token} {condition condition' rest : Tokens} {trails : Bool}
    (reads : Forall₂ (fun t u => t.sameEntry u = true) condition condition')
    (told : isTrailing [t] (condition' ++ rest) = .ok trails) :
    isTrailing [t] (condition ++ rest) = .ok trails := by
  have outcomes := isTrailing_kin kinship_sameEntry (forall₂_sameEntry [t])
    (List.rel_append reads (forall₂_sameEntry rest))
  rw [told] at outcomes
  obtain ⟨trails', done, rfl⟩ := outcomes.exists_ok
  exact done

/-- **What a conditional becomes**, by its condition and by what comes after it.  In front of the
end of a statement it trails, unless the condition is a mapping; in front of a block it stays as it
is. -/
theorem markTrailing_condition (condition : Phrase .expression) (negated : Bool)
    (front expression rest : Tokens) (t : Token) (word : t.tag = keyword negated)
    (reads : Forall₂ (fun t u => t.sameEntry u = true) expression
      (condition.rendering.shown Repair.closers.done)) :
    (Cut rest → Becomes front t (expression ++ rest)
      (if condition.isMapping then t else t.retag (trailingKeyword negated))) ∧
    ∀ body more, rest = body :: more → body.tag = .indent → body.provenance = .source →
      Becomes front t (expression ++ rest) t := by
  have notOneLine : t.tag.isSingleLiner = false := by
    rw [word]
    cases negated <;> rfl
  have becomes : ∀ {trails : Bool},
      isTrailing [t] (condition.rendering.shown Repair.closers.done ++ rest) = .ok trails →
        Becomes front t (expression ++ rest)
          (if trails then t.retag (trailingKeyword negated) else t) :=
    fun told => becomes_of_settle (settle_keyword word (isTrailing_sameEntry reads told)) front
  cases mapping : condition.isMapping with
  | true =>
      have leads := (isTrailing_eq_false_iff _ _).2 (condition.leads_mapping mapping notOneLine rest)
      exact ⟨fun _ => becomes leads, fun _ _ _ _ _ => becomes leads⟩
  | false =>
      obtain ⟨forest, level, flat, unbroken, last⟩ := condition.whole mapping t
      rw [← flat] at becomes last
      refine ⟨fun cut => becomes (isTrailing_of_cut level unbroken cut), ?_⟩
      rintro body more rfl indent source
      have leads : LeadsBody t (forest.flatten ++ body :: more) :=
        ⟨forest, body, more, level, rfl, unbroken, indent, last, .inl (by simp [source])⟩
      exact becomes ((isTrailing_eq_false_iff _ _).2 leads)

/-- A mapping with one member. -/
def oneMember : Phrase .expression :=
  .mapping (.lastMember "a" (.number "1"))

/-- A call with a function for an argument, whose body holds a trailing conditional of its own. -/
def callOfFunction : Phrase .expression :=
  .call "f" (.argument (.function (.sequence (.guarded (.name "y") true "z") (.finish none)))
    .noArgument)

theorem markTrailing_condition_callOfFunction :
    Becomes [.spelled .identifier "x"] (.bare .ifWord)
        (callOfFunction.rendering.shown Repair.closers.done ++ [.bare .terminator])
        (.bare .postIf) ∧
      Becomes [] (.bare .ifWord)
        (callOfFunction.rendering.shown Repair.closers.done ++
          [.bare .indent, .spelled .identifier "x", .bare .outdent])
        (.bare .ifWord) ∧
      Becomes [.spelled .identifier "x"] (.bare .ifWord)
        (oneMember.rendering.shown Repair.closers.done ++ []) (.bare .ifWord) := by
  have same := forall₂_sameEntry
  have terminator : Cut [.bare .terminator] := by
    rintro t first
    obtain rfl := Option.some.inj first
    exact .inl rfl
  have end_ : Cut [] := fun _ first => by cases first
  exact ⟨(markTrailing_condition callOfFunction false _ _ _ _ rfl (same _)).1 terminator,
    (markTrailing_condition callOfFunction false _ _ _ _ rfl (same _)).2 _ _ rfl rfl rfl,
    (markTrailing_condition oneMember false _ _ _ _ rfl (same _)).1 end_⟩

/-- Not every conditional at the end of its statement is told to trail. -/
theorem not_trailing_oneMember :
    ¬∀ (condition : Phrase .expression) (negated : Bool) (front rest : Tokens), Cut rest →
      ∀ out, markTrailing (front ++ .bare (keyword negated) ::
          (condition.rendering.shown Repair.closers.done ++ rest)) = .ok out →
        out[front.length]? = some (.bare (trailingKeyword negated)) := by
  intro trails
  have end_ : Cut [] := fun _ first => by cases first
  have leads : markTrailing ([.spelled .identifier "x"] ++ .bare (keyword false) ::
      (oneMember.rendering.shown Repair.closers.done ++ [])) =
        .ok ([.spelled .identifier "x"] ++ .bare (keyword false) ::
          (oneMember.rendering.shown Repair.closers.done ++ [])) := rfl
  have tag := congrArg (Option.map Token.tag)
    (trails oneMember false [.spelled .identifier "x"] [] end_ _ leads)
  revert tag
  decide

end Conditionals

end TokenLayout
