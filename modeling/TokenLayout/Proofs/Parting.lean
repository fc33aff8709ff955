/-
# TokenLayout.Proofs.Parting -- where a terminator parts a construct

The terminator pass looks at the token after the end of a block and at nothing else.  What it
is told there does not always mean that the statement is over.  A trailing conditional goes
on with the statement before it, and the block that a conditional leads goes on with its
condition, but neither a keyword nor an `INDENT` is among the tags that keep terminators away.
So a terminator comes directly before them just if the statement, or the condition, ends with
a block (`Resolver.run_parted`), and then it parts what belongs together
(`Resolver.not_whole_blockThenConditional`).

The outcome of a run is read as a row of tokens, each with what the terminator pass put in
directly before it (`Statements.Led`).
-/
import TokenLayout.Proofs.Convergence

namespace TokenLayout

set_option autoImplicit false

/-! ## What is put in before a token -/

namespace Statements

/-- A token with what the terminator pass puts in directly before it. -/
structure Led where
  before : Tokens
  token : Token

def Led.tokens (entry : Led) : Tokens :=
  entry.before ++ [entry.token]

/-- What is due between the token before, if there is one, and this token. -/
def dueBetween (previous : Option Token) (t : Token) : Tokens :=
  match previous with
  | some p => due p (some t)
  | none => []

/-- The tokens of a stream with what is due before them. -/
def led (previous : Option Token) : Tokens → List Led
  | [] => []
  | t :: rest => ⟨dueBetween previous t, t⟩ :: led (some t) rest

theorem map_token_led (previous : Option Token) (tokens : Tokens) :
    (led previous tokens).map Led.token = tokens := by
  induction tokens generalizing previous with
  | nil => rfl
  | cons t rest ih => rw [led, List.map_cons, ih]

theorem flatMap_led (tokens : Tokens) : (led none tokens).flatMap Led.tokens = terminated tokens := by
  have behind : ∀ p tokens, (led (some p) tokens).flatMap Led.tokens =
      due p tokens.head? ++ terminated tokens := by
    intro p tokens
    induction tokens generalizing p with
    | nil => rfl
    | cons t rest ih =>
        rw [led, List.flatMap_cons, ih, terminated, Led.tokens, List.append_assoc]
        rfl
  cases tokens with
  | nil => rfl
  | cons t rest =>
      rw [led, List.flatMap_cons, behind, terminated]
      rfl

/-- The tokens end with the end of a block. -/
def EndsBlock (tokens : Tokens) : Prop :=
  ∃ t ∈ tokens.getLast?, t.tag = .outdent

theorem before_of_led {previous : Option Token} {tokens : Tokens} {front back : List Led}
    {entry : Led} (split : led previous tokens = front ++ entry :: back) :
    entry.before = dueBetween ((front.map Led.token).getLast?.or previous) entry.token := by
  induction front generalizing previous tokens with
  | nil =>
      cases tokens with
      | nil => cases split
      | cons t rest =>
          obtain ⟨rfl, -⟩ := List.cons.inj split
          rfl
  | cons first front ih =>
      cases tokens with
      | nil => cases split
      | cons t rest =>
          obtain ⟨rfl, later⟩ := List.cons.inj split
          rw [ih later, List.map_cons, List.getLast?_cons]
          cases (front.map Led.token).getLast? <;> rfl

theorem dueBetween_ne_nil_iff {previous : Option Token} {t : Token} (other : continuesBlock t = false) :
    dueBetween previous t ≠ [] ↔ ∃ p ∈ previous, p.tag = .outdent := by
  cases previous with
  | none => simp [dueBetween]
  | some p => simp [dueBetween, due, other]

/-- Before a token that continues no block comes a terminator just behind the end of one. -/
theorem before_ne_nil_iff {tokens : Tokens} {front back : List Led} {entry : Led}
    (split : led none tokens = front ++ entry :: back)
    (other : continuesBlock entry.token = false) :
    entry.before ≠ [] ↔ EndsBlock (front.map Led.token) := by
  rw [before_of_led split, dueBetween_ne_nil_iff other, Option.or_none]
  rfl

theorem explicit_of_led {previous : Option Token} {tokens : Tokens} {entry : Led} {u : Token}
    (member : entry ∈ led previous tokens) (within : u ∈ entry.before) :
    ∃ t, u = .explicit .terminator t := by
  induction tokens generalizing previous with
  | nil => cases member
  | cons t rest ih =>
      rcases List.mem_cons.1 member with rfl | later
      · cases previous with
        | none => cases within
        | some p =>
            have isDue : u ∈ due p (some t) := within
            exact ⟨p, explicit_of_due isDue⟩
      · exact ih later

end Statements

/-! ## A token in the outcome -/

/-- Where a token of the input is in the outcome.  A colon may be dropped, and with it go the
braces around it at once. -/
theorem Follows.exists_cut {survives : Token → Token → Prop} {inserted : Token → Prop}
    {previous : Option Token} {front back outcome : Tokens} {t : Token} (notColon : t.tag ≠ .colon)
    (notClose : t.tag.isCloseBrace = false)
    (follows : Follows survives (fun _ u _ => inserted u) previous (front ++ t :: back) outcome) :
    ∃ front' u back', outcome = front' ++ u :: back' ∧ survives t u ∧
      Follows survives (fun _ u _ => inserted u) previous front front' := by
  generalize split : front ++ t :: back = input at follows
  induction follows generalizing front with
  | nil => cases front <;> cases split
  | @keep previous s u input outcome kept later ih =>
      cases front with
      | nil =>
          obtain ⟨rfl, -⟩ := List.cons.inj split
          exact ⟨[], u, outcome, rfl, kept, .nil⟩
      | cons first front =>
          obtain ⟨rfl, behind⟩ := List.cons.inj split
          obtain ⟨front', w, back', rfl, survives, before⟩ := ih behind
          exact ⟨u :: front', w, back', rfl, survives, .keep kept before⟩
  | @insert previous u input outcome added later ih =>
      obtain ⟨front', w, back', rfl, survives, before⟩ := ih split
      exact ⟨u :: front', w, back', rfl, survives, .insert added before⟩
  | @empty previous o colon c p q input outcome tag spelled opener closer starts ends later ih =>
      -- the token is the open brace or comes after all three, for it is no colon or close brace
      rcases front with - | ⟨first, - | ⟨second, - | ⟨third, front⟩⟩⟩
      · obtain ⟨rfl, -⟩ := List.cons.inj split
        exact ⟨[], p, q :: outcome, rfl, opener, .nil⟩
      · obtain ⟨rfl, behind⟩ := List.cons.inj split
        obtain ⟨rfl, -⟩ := List.cons.inj behind
        exact absurd tag notColon
      · obtain ⟨rfl, behind⟩ := List.cons.inj split
        obtain ⟨rfl, beyond⟩ := List.cons.inj behind
        obtain ⟨rfl, -⟩ := List.cons.inj beyond
        rw [(Braces.braces_of_isEmptyMapping spelled).2] at notClose
        cases notClose
      · obtain ⟨rfl, behind⟩ := List.cons.inj split
        obtain ⟨rfl, beyond⟩ := List.cons.inj behind
        obtain ⟨rfl, last⟩ := List.cons.inj beyond
        obtain ⟨front', w, back', rfl, survives, before⟩ := ih last
        exact ⟨p :: q :: front', w, back', rfl, survives,
          .empty tag spelled opener closer starts ends before⟩

/-- What the mapping pass puts in was generated. -/
theorem WrapsMapping.isGenerated {stream : Tokens} {previous next : Option Token} {u : Token}
    (wraps : WrapsMapping stream previous u next) : u.isGenerated = true := by
  obtain ⟨brace, -, -, ⟨made, -⟩ | ⟨made, -⟩⟩ := wraps <;>
    · rw [made]
      rfl

/-! ## The bodies of conditionals -/

namespace Conditionals

/-- The scan of a condition that leads a block stops at the block. -/
theorem indent_of_leadsBody {keyword body : Token} {before condition rest : Tokens}
    (leads : LeadsBody keyword (condition ++ body :: rest))
    (stops : (Region.after endsCondition (keyword :: before) (condition ++ body :: rest)).ending =
      .stop condition.length body) : body.tag = .indent := by
  have trails : isTrailing (keyword :: before) (condition ++ body :: rest) = .ok false := by
    rw [isTrailing_cons]
    exact (isTrailing_eq_false_iff _ _).2 leads
  rw [isTrailing, stops] at trails
  have owns : ownsBody body = true := by simpa using trails
  simp only [ownsBody, Bool.and_eq_true, beq_iff_eq] at owns
  exact owns.1

end Conditionals

/-- No terminator is kept away from what an `INDENT` becomes. -/
theorem Token.Retagged.continuesBlock {t u : Token} (retagged : t.Retagged u)
    (indent : t.tag = .indent) : Statements.continuesBlock u = false := by
  have tags : u.tag = .indent ∨ u.tag = .mappingStart := by
    rcases retagged.1 with same | changed
    · exact .inl (same.symm.trans indent)
    · rw [indent] at changed
      have only : ∀ p ∈ Tag.retags, p.1 = .indent → p.2 = .mappingStart := by decide
      exact .inr (only _ changed rfl)
  rcases tags with tag | tag <;> rw [Statements.continuesBlock, tag] <;> decide

/-! ## Runs -/

open Statements (Led led EndsBlock)

/-- How the terminators that a run puts in part the tokens of its outcome.  `trailing` is the stream
that the conditionals pass leaves, and each entry of the row is a token with what the terminator
pass put in before it. -/
structure Parted (tokens trailing : Tokens) (row : List Led) (out : Tokens) : Prop where
  /-- The tokens of the row are those of the stream and what else a run puts in. -/
  follows : Follows Token.Retagged (InsertedEarly (Statements.dropLeading tokens)) none
    (Statements.dropLeading tokens) (row.map Led.token)
  /-- The row is the outcome, but for the locations that are filled in. -/
  whole : out.map Locations.unplaced = (row.flatMap Led.tokens).map Locations.unplaced
  /-- What is put in before the tokens are all the terminators put in. -/
  terminators : ∀ entry ∈ row, ∀ u ∈ entry.before, ∃ t, u = Token.explicit .terminator t
  /-- A terminator comes before a trailing conditional just if its statement ends with a block. -/
  trails : ∀ front entry back, row = front ++ entry :: back →
    entry.token.tag = .postIf ∨ entry.token.tag = .postUnless →
      (entry.before ≠ [] ↔ EndsBlock (front.map Led.token))
  /-- One comes before the body of a leading conditional just if its condition does. -/
  leads : ∀ left keyword condition body right,
    trailing = left ++ keyword :: (condition ++ body :: right) →
    keyword.tag = .ifWord ∨ keyword.tag = .unlessWord →
    (Region.after Conditionals.endsCondition (keyword :: left.reverse)
      (condition ++ body :: right)).ending = .stop condition.length body →
    ∃ front entry back, row = front ++ entry :: back ∧ body.Retagged entry.token ∧
      Follows Token.Retagged (fun _ u _ => u.isGenerated = true) none
        (left ++ keyword :: condition) (front.map Led.token) ∧
      (entry.before ≠ [] ↔ EndsBlock (front.map Led.token))

namespace Resolver

/-- **Where terminators part constructs.**  The terminators that a run puts in come directly before
a trailing conditional, or the body of a leading one, exactly where a block ends there. -/
theorem run_parted (tokens out : Tokens) (done : full.run tokens = .ok out) :
    ∃ trailing row, runPasses (Pass.order.take 4) tokens = .ok trailing ∧
      Parted tokens trailing row out := by
  obtain ⟨called, closed, trailing, marked, calls, indexes, trails, marks, rfl⟩ :=
    runPasses_order_eq_ok_iff.1 (full_run_eq_ok_iff.1 done).1
  have conditionals : Pass.trailingConditionals.apply closed = .ok trailing := by
    rw [Pass.apply, Conditionals.markTrailing_eq_trailed, trails]
  have four : Pass.order.take 4 = Pass.order.take 3 ++ [.trailingConditionals] := rfl
  have first : runPasses (Pass.order.take 4) tokens = .ok trailing := by
    rw [four, runPasses_append (runPasses_closers_eq calls indexes),
      runPasses_cons_eq conditionals]
    rfl
  have follows := Braces.follows_markMappings marks
  have grown := (Closers.grown_close (.inr rfl) (Closers.grown_close (.inl rfl) (.refl _ _) calls)
    indexes).trans (Conditionals.grown_trailed trails)
  refine ⟨trailing, led none marked, first, ?_⟩
  constructor
  case follows =>
    rw [Statements.map_token_led]
    exact grown.follows follows fun _ _ _ wraps => wraps.of_grown grown
  case whole =>
    rw [Statements.flatMap_led]
    exact Locations.map_unplaced_settleFrom none _
  case terminators => exact fun entry member u within => Statements.explicit_of_led member within
  case trails =>
    intro front entry back split keyword
    refine Statements.before_ne_nil_iff split ?_
    rcases keyword with tag | tag <;> rw [Statements.continuesBlock, tag] <;> decide
  case leads =>
    intro left keyword condition body right split word stops
    -- what leads after the pass still leads, so the scan of its condition stops at its block
    have indent := Conditionals.indent_of_leadsBody
      (Conditionals.leadsBody_trailed trails split word) stops
    have loosely := follows.mono (fun _ _ same => same) fun _ _ _ wraps => wraps.isGenerated
    have cut : trailing = (left ++ keyword :: condition) ++ body :: right := by simp [split]
    rw [cut] at loosely
    obtain ⟨front', u, back', parts, retagged, before⟩ := loosely.exists_cut
      (by rw [indent]; decide) (by rw [indent]; rfl)
    have row : (led none marked).map Led.token = front' ++ u :: back' := by
      rw [Statements.map_token_led, parts]
    obtain ⟨front, later, whole, rfl, behind⟩ := List.map_eq_append_iff.1 row
    obtain ⟨entry, back, rfl, rfl, -⟩ := List.map_eq_cons_iff.1 behind
    exact ⟨front, entry, back, whole, retagged, before,
      Statements.before_ne_nil_iff whole (retagged.continuesBlock indent)⟩

/-- A condition that ends with a block, and the body behind it. -/
def blockInCondition : Tokens :=
  [.onFirstLine .ifWord 0, .onFirstLine .arrow 1, .onFirstLine .indent 2,
   .onFirstLineAs .identifier "a" 3, .onFirstLine .outdent 4, .onFirstLine .indent 5,
   .onFirstLineAs .identifier "b" 6, .onFirstLine .outdent 7]

/-- A terminator parts the two. -/
theorem run_parted_blockInCondition :
    ∃ out, full.run blockInCondition = .ok out ∧
      out.map Token.tag = [.ifWord, .arrow, .indent, .identifier, .outdent, .terminator, .indent,
        .identifier, .outdent] ∧
      ∃ trailing row, runPasses (Pass.order.take 4) blockInCondition = .ok trailing ∧
        Parted blockInCondition trailing row out :=
  ⟨_, rfl, rfl, run_parted blockInCondition _ rfl⟩

/-- A statement that ends with a block, and its trailing conditional. -/
def blockThenConditional : Tokens :=
  [.onFirstLineAs .identifier "x" 0, .onFirstLine .assign 1, .onFirstLine .arrow 2,
   .onFirstLine .indent 3, .onFirstLineAs .identifier "a" 4, .onFirstLine .outdent 5,
   .onFirstLine .ifWord 6, .onFirstLineAs .identifier "b" 7]

/-- So terminators do part constructs: here one is put in before the trailing conditional. -/
theorem not_whole_blockThenConditional :
    ¬∀ tokens out, full.run tokens = .ok out → (∀ t ∈ tokens, t.tag ≠ .terminator) →
      ∀ front t keyword back, out = front ++ t :: keyword :: back →
        keyword.tag = .postIf ∨ keyword.tag = .postUnless → t.tag ≠ .terminator := by
  intro whole
  have none : ∀ t ∈ blockThenConditional, t.tag ≠ .terminator := by decide
  exact whole blockThenConditional _ rfl none (blockThenConditional.take 6) _ _ _ rfl (.inl rfl) rfl

end Resolver

end TokenLayout
