/-
# TokenLayout.Proofs.Kinship -- runs on streams that differ in what no pass reads

A pass reads the tag of a token, whether it was generated, whether it opens the
block of a `then`, and of a brace or colon whether it is spelled as in the empty
mapping.  Any relation between tokens that grants this much, and that lasts when
both tokens are retagged or put elsewhere, is a `Kinship`.

Streams whose tokens are kin one by one then have one fate.  Either both runs
succeed and the outcomes are kin one by one, or both fail, and their faults are
the same but for the place (`Outcomes`, `Resolver.run_kin`).  The lemmas follow
the passes down: a region of either stream ends alike (`Region.ending_kin`), and
walks whose visits act alike come out alike (`Cursor.scan_kin`).
-/
import Mathlib.Data.List.Forall2
import TokenLayout.Resolver
import TokenLayout.Proofs.Mappings
import TokenLayout.Proofs.Regions

namespace TokenLayout

set_option autoImplicit false

open List (Forall₂)

/-! ## Kin tokens -/

/-- A brace or a colon spelled as in the empty mapping. -/
def Token.spellsMapping (t : Token) : Bool :=
  t.tag.isOpenBrace && t.value == "\x7b" || t.tag == .colon && t.value == ":" ||
    t.tag.isCloseBrace && t.value == "\x7d"

/-- Related tokens are the same to every pass, and stay related whatever a pass makes of
them. -/
structure Kinship (kin : Token → Token → Prop) : Prop where
  tag : ∀ {t u : Token}, kin t u → t.tag = u.tag
  isGenerated : ∀ {t u : Token}, kin t u → t.isGenerated = u.isGenerated
  fromThen : ∀ {t u : Token}, kin t u → t.fromThen = u.fromThen
  spellsMapping : ∀ {t u : Token}, kin t u → t.spellsMapping = u.spellsMapping
  /-- No pass makes a brace of anything but a brace of the same side, nor a colon of
  anything. -/
  retag : ∀ {t u : Token} {tag : Tag}, kin t u → tag ≠ .colon →
    (tag.isOpenBrace = true → t.tag.isOpenBrace = true) →
    (tag.isCloseBrace = true → t.tag.isCloseBrace = true) → kin (t.retag tag) (u.retag tag)
  generated : ∀ (tag : Tag) {t u : Token}, kin t u → kin (.generated tag t) (.generated tag u)
  explicit : ∀ (tag : Tag) {t u : Token}, kin t u → kin (.explicit tag t) (.explicit tag u)
  place : ∀ {t u : Token} (l l' : Option Location), kin t u →
    kin { t with location := l } { u with location := l' }

/-! ## Kin outcomes -/

/-- A fault without its place. -/
def Fault.placeless : Fault → Fault
  | unclosed tag _ => unclosed tag Location.zero
  | unmatchedMappingOpen _ => unmatchedMappingOpen Location.zero
  | unmatchedMappingClose _ => unmatchedMappingClose Location.zero
  | unbalanced tag _ => unbalanced tag Location.zero

/-- Two outcomes are both results, and related, or both one fault at two places. -/
inductive Outcomes {α : Type} (related : α → α → Prop) :
    Except Fault α → Except Fault α → Prop
  | ok {a b : α} (results : related a b) : Outcomes related (.ok a) (.ok b)
  | error {f g : Fault} (faults : f.placeless = g.placeless) :
      Outcomes related (.error f) (.error g)

namespace Outcomes

variable {α β : Type} {related : α → α → Prop} {related' : β → β → Prop}
  {x y : Except Fault α}

theorem map {f g : α → β} (outcomes : Outcomes related x y)
    (maps : ∀ {a b}, related a b → related' (f a) (g b)) :
    Outcomes related' (x.map f) (y.map g) := by
  cases outcomes with
  | ok results => exact .ok (maps results)
  | error faults => exact .error faults

theorem bind {f g : α → Except Fault β} (outcomes : Outcomes related x y)
    (binds : ∀ {a b}, related a b → Outcomes related' (f a) (g b)) :
    Outcomes related' (x >>= f) (y >>= g) := by
  cases outcomes with
  | ok results => exact binds results
  | error faults => exact .error faults

/-- What follows a result on one side is that the other side has one too. -/
theorem exists_ok {b : α} (outcomes : Outcomes related x (.ok b)) :
    ∃ a, x = .ok a ∧ related a b := by
  cases outcomes with
  | ok results => exact ⟨_, rfl, results⟩

end Outcomes

variable {kin : Token → Token → Prop}

/-! ## Kin streams -/

section Lists

variable {α β : Type} {related : α → β → Prop}

theorem forall₂_modify {xs : List α} {ys : List β} {f : α → α} {g : β → β} (n : Nat)
    (lists : Forall₂ related xs ys) (step : ∀ a b, related a b → related (f a) (g b)) :
    Forall₂ related (xs.modify n f) (ys.modify n g) := by
  induction lists generalizing n with
  | nil => cases n <;> exact .nil
  | cons one rest ih =>
      cases n with
      | zero => exact .cons (step _ _ one) rest
      | succ n => exact .cons one (ih n)

theorem forall₂_insertIdx {xs : List α} {ys : List β} {a : α} {b : β} (n : Nat)
    (lists : Forall₂ related xs ys) (one : related a b) :
    Forall₂ related (xs.insertIdx n a) (ys.insertIdx n b) := by
  induction lists generalizing n with
  | nil =>
      cases n with
      | zero => exact .cons one .nil
      | succ n => exact .nil
  | cons first rest ih =>
      cases n with
      | zero => exact .cons one (.cons first rest)
      | succ n => exact .cons first (ih n)

end Lists

/-! ## Regions -/

/-- Two regions end alike: in one way, at one index, at related tokens. -/
inductive Endings (kin : Token → Token → Prop) : RegionEnd → RegionEnd → Prop
  | stop (index : Nat) {t u : Token} (one : kin t u) :
      Endings kin (.stop index t) (.stop index u)
  | implicit (index : Nat) : Endings kin (.implicit index) (.implicit index)
  | unclosed (index : Nat) {t u : Token} (one : kin t u) :
      Endings kin (.unclosed index t) (.unclosed index u)

/-- The condition is the same at related places. -/
def Condition.Respects (stop : Condition) (kin : Token → Token → Prop) : Prop :=
  ∀ {before before' : Tokens} {t u : Token} {after after' : Tokens},
    Forall₂ kin before before' → kin t u → Forall₂ kin after after' →
      stop before t after = stop before' u after'

theorem Region.ending_kin (kinship : Kinship kin) {stop : Condition}
    (respects : stop.Respects kin) {opened opened' : List (Nat × Token)}
    {before before' tokens tokens' : Tokens} (index : Nat)
    (openers : Forall₂ (fun p q => p.1 = q.1 ∧ kin p.2 q.2) opened opened')
    (earlier : Forall₂ kin before before') (later : Forall₂ kin tokens tokens') :
    Endings kin (scan stop opened before index tokens).ending
      (scan stop opened' before' index tokens').ending := by
  induction later generalizing opened opened' before before' index with
  | nil =>
      -- an unclosed region blames its outermost opener, which is the last of those open
      have last := List.rel_reverse openers
      simp only [scan, ← List.head?_reverse]
      revert last
      generalize opened.reverse = outermost, opened'.reverse = outermost'
      intro last
      cases last with
      | nil => exact .implicit index
      | @cons p q _ _ first _ =>
          obtain ⟨i, opener⟩ := p
          obtain ⟨j, opener'⟩ := q
          obtain ⟨rfl, one⟩ : i = j ∧ kin opener opener' := first
          exact .unclosed i one
  | @cons t u after after' one rest ih =>
      have same : opened.isEmpty = opened'.isEmpty := by cases openers <;> rfl
      rw [ending_cons, ending_cons, respects earlier one rest, kinship.tag one, same]
      split
      · exact .stop index one
      · split
        · exact ih (index + 1) (.cons ⟨rfl, one⟩ openers) (.cons one earlier)
        · split
          · cases openers with
            | nil => exact .implicit index
            | cons first outer => exact ih (index + 1) outer (.cons one earlier)
          · exact ih (index + 1) openers (.cons one earlier)

/-! ## Calls and indexes -/

namespace Closers

theorem closesGroup_kin (kinship : Kinship kin) {before before' : Tokens}
    (earlier : Forall₂ kin before before') (depth : Nat) :
    closesGroup depth before = closesGroup depth before' := by
  induction earlier generalizing depth with
  | nil => rfl
  | cons one _ ih => simp only [closesGroup, kinship.tag one, ih]

theorem endsCall_respects (kinship : Kinship kin) : endsCall.Respects kin := by
  intro before before' t u after after' earlier one _
  cases earlier with
  | nil => simp only [endsCall, kinship.tag one]
  | cons previous rest =>
      simp only [endsCall, kinship.tag one, kinship.tag previous, closesGroup_kin kinship rest]

theorem endsIndex_respects (kinship : Kinship kin) : endsIndex.Respects kin := by
  intro before before' t u after after' _ one _
  simp only [endsIndex, kinship.tag one]

/-- A construct reads no more of the stream than the passes do, and its closer is no brace. -/
structure Construct.Kindly (construct : Construct) (kin : Token → Token → Prop) : Prop where
  respects : construct.ends.Respects kin
  closer : construct.closer ≠ .colon ∧ construct.closer.isOpenBrace = false ∧
    construct.closer.isCloseBrace = false

theorem call_kindly (kinship : Kinship kin) : call.Kindly kin :=
  ⟨endsCall_respects kinship, by decide, rfl, rfl⟩

theorem index_kindly (kinship : Kinship kin) : index.Kindly kin :=
  ⟨endsIndex_respects kinship, by decide, rfl, rfl⟩

variable {construct : Construct}

theorem closeOne_kin (kinship : Kinship kin) (kindly : construct.Kindly kin)
    {before before' after after' : Tokens} {t u : Token} (earlier : Forall₂ kin before before')
    (one : kin t u) (later : Forall₂ kin after after') :
    Outcomes (Forall₂ kin) (closeOne construct before t after)
      (closeOne construct before' u after') := by
  have endings := Region.ending_kin kinship kindly.respects 0 .nil (.cons one earlier) later
  obtain ⟨notColon, notOpen, notClose⟩ := kindly.closer
  unfold closeOne Region.after
  revert endings
  generalize (Region.scan construct.ends [] (t :: before) 0 after).ending = ending,
    (Region.scan construct.ends [] (u :: before') 0 after').ending = ending'
  intro endings
  cases endings with
  | stop i last =>
      simp only [kinship.tag last]
      refine .ok (forall₂_modify _ later fun a b same => kinship.retag same notColon ?_ ?_)
      · rw [notOpen]
        exact fun h => absurd h Bool.false_ne_true
      · rw [notClose]
        exact fun h => absurd h Bool.false_ne_true
  | implicit i => exact .ok (forall₂_insertIdx _ later (kinship.generated _ one))
  | unclosed i opener =>
      exact .error (by simp [Fault.ofUnclosed, Fault.placeless, kinship.tag opener])

theorem closeOnto_kin (kinship : Kinship kin) (kindly : construct.Kindly kin)
    {before before' tokens tokens' : Tokens} (earlier : Forall₂ kin before before')
    (later : Forall₂ kin tokens tokens') :
    Outcomes (Forall₂ kin) (closeOnto construct before tokens [])
      (closeOnto construct before' tokens' []) := by
  induction later generalizing before before' with
  | nil => exact .ok .nil
  | @cons t u rest rest' one _ ih =>
      have inner := ih (.cons one earlier)
      simp only [closeOnto]
      revert inner
      generalize closeOnto construct (t :: before) rest [] = x,
        closeOnto construct (u :: before') rest' [] = y
      intro inner
      cases inner with
      | error faults => exact .error faults
      | ok closed =>
          simp only [kinship.tag one]
          split
          · exact (closeOne_kin kinship kindly earlier one closed).map fun more => .cons one more
          · exact .ok (.cons one closed)

end Closers

/-! ## Walks -/

namespace Cursor

/-- Cursors at kin places. -/
def Kin (kin : Token → Token → Prop) (c c' : Cursor) : Prop :=
  Forall₂ kin c.before c'.before ∧ Forall₂ kin c.rest c'.rest

theorem forward_kin {before before' rest rest' : Tokens} (n : Nat)
    (earlier : Forall₂ kin before before') (later : Forall₂ kin rest rest') :
    Kin kin (forward before n rest) (forward before' n rest') := by
  induction later generalizing before before' n with
  | nil => cases n <;> exact ⟨earlier, .nil⟩
  | cons one rest ih =>
      cases n with
      | zero => exact ⟨earlier, .cons one rest⟩
      | succ n => exact ih n (.cons one earlier)

theorem backward_kin {before before' rest rest' : Tokens} (n : Nat)
    (earlier : Forall₂ kin before before') (later : Forall₂ kin rest rest') :
    Kin kin (backward rest n before) (backward rest' n before') := by
  induction earlier generalizing rest rest' n with
  | nil => cases n <;> exact ⟨.nil, later⟩
  | cons one earlier ih =>
      cases n with
      | zero => exact ⟨.cons one earlier, later⟩
      | succ n => exact ih n (.cons one later)

theorem move_kin {c c' : Cursor} (cursors : Kin kin c c') (places : Int) :
    Kin kin (c.move places) (c'.move places) := by
  cases places with
  | ofNat n => exact forward_kin n cursors.1 cursors.2
  | negSucc n => exact backward_kin (n + 1) cursors.1 cursors.2

/-- Visits that leave the cursor at kin places, with one move to make. -/
def Visited (kin : Token → Token → Prop) : Except Fault (Cursor × Int) →
    Except Fault (Cursor × Int) → Prop :=
  Outcomes fun p q => Kin kin p.1 q.1 ∧ p.2 = q.2

theorem Visited.ok {c c' : Cursor} (cursors : Kin kin c c') (places : Int) :
    Visited kin (.ok (c, places)) (.ok (c', places)) :=
  Outcomes.ok ⟨cursors, rfl⟩

/-- Visits at kin places do alike. -/
def PlainVisit.Respects (visit : PlainVisit Fault) (kin : Token → Token → Prop) : Prop :=
  ∀ {before before' : Tokens} {t u : Token} {after after' : Tokens},
    Forall₂ kin before before' → kin t u → Forall₂ kin after after' →
      Visited kin (visit before t after) (visit before' u after')

/-- How a walk came out. -/
def outcome (walk : Walk Unit Fault) : Except Fault Tokens :=
  match walk.ending with
  | .failed e => .error e
  | _ => .ok walk.tokens

theorem scan_eq_outcome (visit : PlainVisit Fault) (budget : Nat) (tokens : Tokens) :
    scan visit budget tokens = outcome (walk visit.stateful budget () (start tokens)) := by
  simp only [scan, outcome]
  cases (walk visit.stateful budget () (start tokens)).ending <;> rfl

theorem walk_kin {visit : PlainVisit Fault} (respects : visit.Respects kin) (budget : Nat)
    {c c' : Cursor} (cursors : Kin kin c c') :
    Outcomes (Forall₂ kin) (outcome (walk visit.stateful budget () c))
      (outcome (walk visit.stateful budget () c')) := by
  induction budget generalizing c c' with
  | zero =>
      obtain ⟨before, rest⟩ := c
      obtain ⟨before', rest'⟩ := c'
      obtain ⟨earlier, later⟩ := cursors
      have whole := List.rel_append (List.rel_reverse earlier) later
      cases later with
      | nil => exact .ok (List.rel_reverse earlier)
      | cons one rest => exact .ok whole
  | succ budget ih =>
      obtain ⟨before, rest⟩ := c
      obtain ⟨before', rest'⟩ := c'
      obtain ⟨earlier, later⟩ := cursors
      cases later with
      | nil => exact .ok (List.rel_reverse earlier)
      | @cons t u after after' one later =>
          have visits := respects earlier one later
          simp only [walk, PlainVisit.stateful]
          revert visits
          generalize visit before t after = x, visit before' u after' = y
          intro visits
          cases visits with
          | error faults => exact .error faults
          | @ok p q moved =>
              obtain ⟨c, places⟩ := p
              obtain ⟨c', places'⟩ := q
              obtain ⟨cursors, rfl⟩ : Kin kin c c' ∧ places = places' := moved
              exact ih (move_kin cursors places)

theorem scan_kin {visit : PlainVisit Fault} (respects : visit.Respects kin) (budget : Nat)
    {tokens tokens' : Tokens} (streams : Forall₂ kin tokens tokens') :
    Outcomes (Forall₂ kin) (scan visit budget tokens) (scan visit budget tokens') := by
  have cursors : Kin kin (start tokens) (start tokens') := ⟨.nil, streams⟩
  rw [scan_eq_outcome, scan_eq_outcome]
  exact walk_kin respects budget cursors

end Cursor

/-! ## Conditionals -/

namespace Conditionals

theorem endsCondition_respects (kinship : Kinship kin) : endsCondition.Respects kin := by
  intro before before' t u after after' earlier one _
  cases earlier with
  | nil => simp only [endsCondition, kinship.tag one]
  | cons previous _ =>
      simp only [endsCondition, kinship.tag one, List.head?_cons, Option.any_some,
        kinship.tag previous]

theorem isTrailing_kin (kinship : Kinship kin) {before before' after after' : Tokens}
    (earlier : Forall₂ kin before before') (later : Forall₂ kin after after') :
    Outcomes Eq (isTrailing before after) (isTrailing before' after') := by
  have endings :=
    Region.ending_kin kinship (endsCondition_respects kinship) 0 .nil earlier later
  unfold isTrailing Region.after
  revert endings
  generalize (Region.scan endsCondition [] before 0 after).ending = ending,
    (Region.scan endsCondition [] before' 0 after').ending = ending'
  intro endings
  cases endings with
  | stop i last =>
      refine .ok ?_
      simp only [ownsBody, kinship.tag last, kinship.isGenerated last, kinship.fromThen last]
  | implicit i => exact .ok rfl
  | unclosed i opener =>
      exact .error (by simp [Fault.ofUnclosed, Fault.placeless, kinship.tag opener])

theorem visit_respects (kinship : Kinship kin) : Cursor.PlainVisit.Respects visit kin := by
  intro before before' t u after after' earlier one later
  have trails := isTrailing_kin kinship (.cons one earlier) later
  have kept : ∀ {t u : Token}, kin t u →
      Cursor.Visited kin (Cursor.keep before t after) (Cursor.keep before' u after') :=
    fun same => .ok ⟨earlier, .cons same later⟩ 1
  simp only [visit, kinship.tag one]
  cases keyword : trailing? u.tag with
  | none => exact kept one
  | some tag =>
      have tags : tag = .postIf ∨ tag = .postUnless := by
        cases word : u.tag <;> rw [word] at keyword <;> cases keyword <;> simp
      have retagged : kin (t.retag tag) (u.retag tag) := by
        rcases tags with rfl | rfl <;>
          exact kinship.retag one (by decide) (fun opens => by cases opens) fun closes => by
            cases closes
      revert trails
      generalize isTrailing (t :: before) after = x, isTrailing (u :: before') after' = y
      intro trails
      cases trails with
      | error faults => exact .error faults
      | @ok a b same =>
          subst same
          cases a with
          | true => exact kept retagged
          | false => exact kept one

end Conditionals

/-! ## Terminators -/

namespace Statements

theorem dropLeading_kin (kinship : Kinship kin) {tokens tokens' : Tokens}
    (streams : Forall₂ kin tokens tokens') :
    Forall₂ kin (dropLeading tokens) (dropLeading tokens') := by
  induction streams with
  | nil => exact .nil
  | cons one rest ih =>
      simp only [dropLeading, List.dropWhile_cons, kinship.tag one]
      split
      · exact ih
      · exact .cons one rest

theorem visit_respects (kinship : Kinship kin) : Cursor.PlainVisit.Respects visit kin := by
  intro before before' t u after after' earlier one later
  cases later with
  | nil => exact .ok ⟨earlier, .cons one .nil⟩ 1
  | @cons n n' rest rest' next later =>
      have same : continuesBlock n = continuesBlock n' := by
        simp only [continuesBlock, kinship.tag next]
      by_cases ends : u.tag = .outdent ∧ !continuesBlock n'
      · simp only [visit, kinship.tag one, same, if_pos ends]
        refine .ok ?_ 2
        exact ⟨earlier, .cons one (.cons (kinship.explicit _ one) (.cons next later))⟩
      · simp only [visit, kinship.tag one, same, if_neg ends]
        refine .ok ?_ 1
        exact ⟨earlier, .cons one (.cons next later)⟩

end Statements

/-! ## Mappings -/

namespace Braces

/-- What two searches find is kin. -/
structure Sought.Kin (kin : Token → Token → Prop) (s s' : Sought) : Prop where
  passed : Forall₂ kin s.passed s'.passed
  token : kin s.token s'.token
  beyond : Forall₂ kin s.beyond s'.beyond

theorem seek_kin (kinship : Kinship kin) (wanted nested : Tag → Bool) (depth : Nat)
    {tokens tokens' : Tokens} (streams : Forall₂ kin tokens tokens') :
    Option.Rel (Sought.Kin kin) (seek wanted nested depth tokens)
      (seek wanted nested depth tokens') := by
  induction streams generalizing depth with
  | nil => exact .none
  | @cons t u rest rest' one later ih =>
      have pass : ∀ deeper, Option.Rel (Sought.Kin kin)
          ((seek wanted nested deeper rest).map fun s => { s with passed := t :: s.passed })
          ((seek wanted nested deeper rest').map fun s => { s with passed := u :: s.passed }) := by
        intro deeper
        have found := ih deeper
        revert found
        generalize seek wanted nested deeper rest = x, seek wanted nested deeper rest' = y
        intro found
        cases found with
        | none => exact .none
        | some sought => exact .some ⟨.cons one sought.passed, sought.token, sought.beyond⟩
      simp only [seek, kinship.tag one]
      split
      · exact pass _
      · split
        · cases depth with
          | zero => exact .some ⟨.nil, one, later⟩
          | succ depth => exact pass depth
        · exact pass depth

theorem opensClassBody_kin (kinship : Kinship kin) {before before' : Tokens}
    (earlier : Forall₂ kin before before') : opensClassBody before = opensClassBody before' := by
  cases earlier with
  | nil => rfl
  | cons one earlier =>
      cases earlier with
      | nil => simp [opensClassBody, kinship.tag one]
      | cons two _ => simp [opensClassBody, kinship.tag one, kinship.tag two]

/-- A colon between braces spells the empty mapping just if all three are spelled for it. -/
theorem isEmptyMapping_eq {o t c : Token} (colon : t.tag = .colon) :
    isEmptyMapping o t c = (o.tag.isOpenBrace && o.spellsMapping && t.spellsMapping &&
      c.tag.isCloseBrace && c.spellsMapping) := by
  have opener : o.tag.isOpenBrace = true → o.spellsMapping = (o.value == "\x7b") := by
    intro opens
    have notColon : o.tag ≠ .colon := noColon_of_isOpenBrace opens
    simp [Token.spellsMapping, opens, Tag.isCloseBrace_of_isOpenBrace opens, notColon]
  have closer : c.tag.isCloseBrace = true → c.spellsMapping = (c.value == "\x7d") := by
    intro closes
    have notColon : c.tag ≠ .colon := noColon_of_isCloseBrace closes
    simp [Token.spellsMapping, closes, Tag.isOpenBrace_of_isCloseBrace closes, notColon]
  have middle : t.spellsMapping = (t.value == ":") := by
    have noBrace := Token.noBrace_of_colon colon
    rw [Token.spellsMapping, noBrace.1, noBrace.2, colon]
    simp
  cases opens : o.tag.isOpenBrace with
  | false => simp [isEmptyMapping, opens]
  | true =>
      cases closes : c.tag.isCloseBrace with
      | false => simp [isEmptyMapping, closes]
      | true =>
          simp only [isEmptyMapping, opens, closes, opener opens, closer closes, middle,
            Bool.true_and, Bool.and_true]

theorem isEmptyMapping_kin (kinship : Kinship kin) {o o' t u c c' : Token} (colon : u.tag = .colon)
    (opener : kin o o') (one : kin t u) (closer : kin c c') :
    isEmptyMapping o t c = isEmptyMapping o' u c' := by
  rw [isEmptyMapping_eq colon, isEmptyMapping_eq (by rw [kinship.tag one, colon])]
  simp only [kinship.tag opener, kinship.tag closer, kinship.spellsMapping opener,
    kinship.spellsMapping one, kinship.spellsMapping closer]

theorem retag_opener_kin (kinship : Kinship kin) {o o' : Token} (opens : o.tag.isOpenBrace = true)
    (opener : kin o o') : kin (o.retag .mappingStart) (o'.retag .mappingStart) :=
  kinship.retag opener (by decide) (fun _ => opens) fun closes => by cases closes

theorem retag_closer_kin (kinship : Kinship kin) {c c' : Token} (closes : c.tag.isCloseBrace = true)
    (closer : kin c c') : kin (c.retag .mappingEnd) (c'.retag .mappingEnd) :=
  kinship.retag closer (by decide) (fun opens => by cases opens) fun _ => closes

theorem markMapping_kin (kinship : Kinship kin) {before before' after after' : Tokens} {t u : Token}
    (earlier : Forall₂ kin before before') (later : Forall₂ kin after after') :
    Outcomes (fun p q => Forall₂ kin p.1 q.1 ∧ Forall₂ kin p.2 q.2)
      (markMapping before t after) (markMapping before' u after') := by
  have lefts := seek_kin kinship Tag.isOpenBrace Tag.isCloseBrace 0 earlier
  have rights := seek_kin kinship Tag.isCloseBrace Tag.isOpenBrace 0 later
  have closes : ∀ r, seek Tag.isCloseBrace Tag.isOpenBrace 0 after = some r →
      r.token.tag.isCloseBrace = true := fun r found => (split_of_seek found).2
  simp only [markMapping, openBrace?, closeBrace?]
  revert lefts rights closes
  generalize seek Tag.isOpenBrace Tag.isCloseBrace 0 before = left,
    seek Tag.isOpenBrace Tag.isCloseBrace 0 before' = left',
    seek Tag.isCloseBrace Tag.isOpenBrace 0 after = right,
    seek Tag.isCloseBrace Tag.isOpenBrace 0 after' = right'
  intro lefts rights closes
  cases lefts with
  | none => exact .error rfl
  | @some l l' opener =>
      cases rights with
      | none => exact .error rfl
      | @some r r' closer =>
          have ends := retag_closer_kin kinship (closes r rfl) closer.token
          have isBlock : (l.token.tag == .indent) = (l'.token.tag == .indent) := by
            rw [kinship.tag opener.token]
          have brace : kin
              (if (l'.token.tag == .indent) = true then l.token.retag .mappingStart else l.token)
              (if (l'.token.tag == .indent) = true then l'.token.retag .mappingStart
                else l'.token) := by
            split
            · rename_i block
              refine retag_opener_kin kinship ?_ opener.token
              rw [kinship.tag opener.token, Tag.isOpenBrace, block, Bool.true_or]
            · exact opener.token
          simp only [isBlock, opensClassBody_kin kinship opener.beyond]
          refine .ok ⟨List.rel_append opener.passed (.cons brace ?_),
            List.rel_append closer.passed (.cons ends ?_)⟩
          · split
            · exact .cons (kinship.generated _ brace) opener.beyond
            · exact opener.beyond
          · split
            · exact .cons (kinship.generated _ brace) closer.beyond
            · exact closer.beyond

theorem visit_respects (kinship : Kinship kin) : Cursor.PlainVisit.Respects visit kin := by
  intro before before' t u after after' earlier one later
  by_cases colon : t.tag = .colon
  · have colon' : u.tag = .colon := by rw [← kinship.tag one, colon]
    have marked : Cursor.Visited kin
        ((markMapping before t after).map fun p => (⟨p.1, t :: p.2⟩, 1))
        ((markMapping before' u after').map fun p => (⟨p.1, u :: p.2⟩, 1)) :=
      (markMapping_kin kinship earlier later).map fun sides =>
        ⟨⟨sides.1, .cons one sides.2⟩, rfl⟩
    simp only [visit, colon, colon', ne_eq, not_true_eq_false, if_false]
    cases earlier with
    | nil => exact marked
    | cons previous earlier =>
        cases later with
        | nil => exact marked
        | cons next later =>
            simp only [isEmptyMapping_kin kinship colon' previous one next]
            split
            · rename_i empty
              obtain ⟨opens, closes⟩ := braces_of_isEmptyMapping empty
              rw [← kinship.tag previous] at opens
              rw [← kinship.tag next] at closes
              refine .ok ?_ 1
              exact ⟨.cons (retag_opener_kin kinship opens previous) earlier,
                .cons (retag_closer_kin kinship closes next) later⟩
            · exact marked
  · have other : u.tag ≠ .colon := by rwa [← kinship.tag one]
    rw [visit_other colon, visit_other other]
    refine .ok ?_ 1
    exact ⟨earlier, .cons one later⟩

end Braces

/-! ## Locations -/

namespace Locations

theorem settle_kin (kinship : Kinship kin) {t u : Token} (one : kin t u)
    (previous next previous' next' : Option Location) :
    kin (settle previous t next) (settle previous' u next') := by
  have anywhere : ∀ previous next : Option Location, ∀ t : Token,
      ∃ l, settle previous t next = { t with location := l } := by
    intro previous next t
    unfold settle
    split
    · exact ⟨t.location, rfl⟩
    · exact ⟨_, rfl⟩
  obtain ⟨l, same⟩ := anywhere previous next t
  obtain ⟨l', same'⟩ := anywhere previous' next' u
  rw [same, same']
  exact kinship.place l l' one

theorem settleFrom_kin (kinship : Kinship kin) {tokens tokens' : Tokens}
    (streams : Forall₂ kin tokens tokens') (previous previous' : Option Location) :
    Forall₂ kin (settleFrom previous tokens) (settleFrom previous' tokens') := by
  induction streams generalizing previous previous' with
  | nil => exact .nil
  | cons one _ ih => exact .cons (settle_kin kinship one _ _ _ _) (ih _ _)

end Locations

/-! ## Passes and runs -/

theorem checkBalance_kin (kinship : Kinship kin) {opened opened' tokens tokens' : Tokens}
    (openers : Forall₂ kin opened opened') (streams : Forall₂ kin tokens tokens') :
    Outcomes Eq (checkBalance opened tokens) (checkBalance opened' tokens') := by
  have blame : ∀ {t u : Token}, kin t u →
      (Fault.ofUnbalanced t).placeless = (Fault.ofUnbalanced u).placeless := by
    intro t u one
    simp [Fault.ofUnbalanced, Fault.placeless, kinship.tag one]
  induction streams generalizing opened opened' with
  | nil =>
      have last := List.rel_reverse openers
      simp only [checkBalance, ← List.head?_reverse]
      revert last
      generalize opened.reverse = outermost, opened'.reverse = outermost'
      intro last
      cases last with
      | nil => exact .ok rfl
      | cons first _ => exact .error (blame first)
  | cons one rest ih =>
      simp only [checkBalance, kinship.tag one]
      split
      · exact ih (.cons one openers)
      · split
        · cases openers with
          | nil => exact .error (blame one)
          | cons first outer =>
              simp only [kinship.tag first]
              split
              · exact ih outer
              · exact .error (blame one)
        · exact ih openers

/-- **A pass treats kin streams alike.** -/
theorem Pass.apply_kin (kinship : Kinship kin) (pass : Pass) {tokens tokens' : Tokens}
    (streams : Forall₂ kin tokens tokens') :
    Outcomes (Forall₂ kin) (pass.apply tokens) (pass.apply tokens') := by
  have length := streams.length_eq
  cases pass with
  | leadingNewlines => exact .ok (Statements.dropLeading_kin kinship streams)
  | closeCalls => exact Closers.closeOnto_kin kinship (Closers.call_kindly kinship) .nil streams
  | closeIndexes => exact Closers.closeOnto_kin kinship (Closers.index_kindly kinship) .nil streams
  | trailingConditionals =>
      simp only [apply, Conditionals.markTrailing, length]
      exact Cursor.scan_kin (Conditionals.visit_respects kinship) _ streams
  | mappingLiterals =>
      simp only [apply, Braces.markMappings, length]
      exact Cursor.scan_kin (Braces.visit_respects kinship) _ streams
  | terminators =>
      simp only [apply, Statements.terminateBlocks, length]
      exact Cursor.scan_kin (Statements.visit_respects kinship) _ streams
  | locationBackfill => exact .ok (Locations.settleFrom_kin kinship streams none none)

namespace Resolver

theorem runPasses_kin (kinship : Kinship kin) (passes : List Pass) {tokens tokens' : Tokens}
    (streams : Forall₂ kin tokens tokens') :
    Outcomes (Forall₂ kin) (runPasses passes tokens) (runPasses passes tokens') := by
  induction passes generalizing tokens tokens' with
  | nil => exact .ok streams
  | cons pass later ih =>
      simp only [runPasses, List.foldlM_cons]
      exact (pass.apply_kin kinship streams).bind ih

/-- **Runs on kin streams come out alike.** -/
theorem run_kin (kinship : Kinship kin) (r : Resolver) {tokens tokens' : Tokens}
    (streams : Forall₂ kin tokens tokens') :
    Outcomes (Forall₂ kin) (r.run tokens) (r.run tokens') := by
  simp only [run]
  refine (runPasses_kin kinship r.passes streams).bind fun resolved => ?_
  split
  · exact (checkBalance_kin kinship .nil resolved).bind fun _ => .ok resolved
  · exact .ok resolved

end Resolver

end TokenLayout
