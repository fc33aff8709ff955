/-
# TokenLayout.Proofs.Colons -- no colon is missed

The mapping pass edits the stream it walks over on both sides of the cursor, and with a class
body the stream grows in front of the cursor as fast as the cursor moves.  It ends all the same:
only a colon brings a token into the way, a generated `OUTDENT`, and no visit brings a colon, so
each visit takes one from the tokens ahead and the colons ahead together.

What lies ahead is known exactly.  A visit changes nothing there but close braces (`LeadsTo`): a
generated `INDENT` comes to lie behind the cursor, an open brace is retagged only behind it, and
nothing that was passed is come back to.  So at every visit the tokens visited before and the
tokens ahead are together the tokens of the stream, close braces apart (`Accounted`).

Main statement: `markMappings_visits`.
-/
import TokenLayout.Proofs.Mappings
import TokenLayout.Proofs.Visits

namespace TokenLayout.Braces

set_option autoImplicit false

/-! ## What a visit does -/

/-- What becomes of a stream when a token in it is visited: the cursor that the next visit starts
from. -/
inductive LeadsTo : Tokens → Token → Tokens → Cursor → Prop
  /-- A token that is no colon is passed. -/
  | keep {t : Token} (other : t.tag ≠ .colon) (before after : Tokens) :
      LeadsTo before t after ⟨t :: before, after⟩
  /-- The colon of an empty mapping goes, and its close brace is passed. -/
  | drop {o t c : Token} (colon : t.tag = .colon) (spelled : isEmptyMapping o t c = true)
      (before after : Tokens) :
      LeadsTo (o :: before) t (c :: after)
        ⟨c.retag .mappingEnd :: o.retag .mappingStart :: before, after⟩
  /-- A pair of braces around a colon is dressed. -/
  | dress {o t c : Token} (colon : t.tag = .colon) (braces : o.Braces c)
      (passed before between after : Tokens) :
      LeadsTo (passed ++ o :: before) t (between ++ c :: after)
        ⟨t :: (passed ++ openSide o before), between ++ closeSide o before c after⟩

theorem leadsTo_of_markMapping {before after : Tokens} {t : Token} {sides : Tokens × Tokens}
    (colon : t.tag = .colon) (marked : markMapping before t after = .ok sides) :
    LeadsTo before t after ⟨t :: sides.1, sides.2⟩ := by
  cases opened : openBrace? before with
  | none => simp [markMapping, opened] at marked
  | some left =>
      cases closed : closeBrace? after with
      | none => simp [markMapping, opened, closed] at marked
      | some right =>
          obtain ⟨front, opens⟩ := split_of_seek opened
          obtain ⟨back, closes⟩ := split_of_seek closed
          rw [markMapping_found opened closed] at marked
          rw [← Except.ok.inj marked, front, back]
          exact .dress colon ⟨opens, closes⟩ _ _ _ _

/-- **A visit edits the stream in one of three ways**, unless it fails. -/
theorem leadsTo_of_visit {before after : Tokens} {t : Token} {c : Cursor} {places : Int}
    (visited : visit before t after = .ok (c, places)) : LeadsTo before t after (c.move places) := by
  by_cases colon : t.tag = .colon
  · by_cases empty : ∃ o earlier u later, before = o :: earlier ∧ after = u :: later ∧
        isEmptyMapping o t u = true
    · obtain ⟨o, earlier, u, later, rfl, rfl, spelled⟩ := empty
      rw [visit_empty colon spelled] at visited
      cases visited
      rw [Cursor.move_one]
      exact .drop colon spelled earlier later
    · have notEmpty : ∀ o ∈ before.head?, ∀ u ∈ after.head?, isEmptyMapping o t u = false := by
        intro o first u second
        rw [Bool.eq_false_iff]
        intro spelled
        obtain ⟨earlier, rfl⟩ := List.head?_eq_some_iff.1 first
        obtain ⟨later, rfl⟩ := List.head?_eq_some_iff.1 second
        exact empty ⟨o, earlier, u, later, rfl, rfl, spelled⟩
      rw [visit_colon colon notEmpty] at visited
      cases marked : markMapping before t after with
      | error fault => simp [marked, Except.map] at visited
      | ok sides =>
          rw [marked] at visited
          cases visited
          rw [Cursor.move_one]
          exact leadsTo_of_markMapping colon marked
  · rw [visit_other colon] at visited
    cases visited
    rw [Cursor.move_one]
    exact .keep colon before after

/-! ## Close braces apart -/

/-- The tokens that are no close braces. -/
def noClosers (tokens : Tokens) : Tokens :=
  tokens.filter (!·.tag.isCloseBrace)

/-- The tokens with this tag. -/
def ofTag (tag : Tag) (tokens : Tokens) : Tokens :=
  tokens.filter (·.tag = tag)

theorem noClosers_append (front back : Tokens) :
    noClosers (front ++ back) = noClosers front ++ noClosers back :=
  List.filter_append front back

theorem noClosers_cons_closer {t : Token} (closes : t.tag.isCloseBrace = true) (rest : Tokens) :
    noClosers (t :: rest) = noClosers rest := by
  simp [noClosers, closes]

/-- Without the close braces all tokens of another tag are still there. -/
theorem ofTag_noClosers {tag : Tag} (other : tag.isCloseBrace = false) (tokens : Tokens) :
    ofTag tag (noClosers tokens) = ofTag tag tokens := by
  rw [ofTag, noClosers, List.filter_filter]
  refine List.filter_congr fun t _ => ?_
  by_cases here : t.tag = tag
  · simp [here, other]
  · simp [here]

theorem ofTag_congr {tag : Tag} (other : tag.isCloseBrace = false) {tokens tokens' : Tokens}
    (same : noClosers tokens = noClosers tokens') : ofTag tag tokens = ofTag tag tokens' := by
  rw [← ofTag_noClosers other, same, ofTag_noClosers other]

theorem length_ofTag (tag : Tag) (tokens : Tokens) :
    (ofTag tag tokens).length = tokens.countP (·.tag = tag) :=
  List.countP_eq_length_filter.symm

/-- What is put behind a pair is close braces. -/
theorem noClosers_closeSide {c : Token} (closes : c.tag.isCloseBrace = true) (o : Token)
    (before after : Tokens) : noClosers (closeSide o before c after) = noClosers (c :: after) := by
  have brace : (c.retag .mappingEnd).tag.isCloseBrace = true := rfl
  rw [closeSide, noClosers_cons_closer brace, noClosers_cons_closer closes]
  split
  · exact noClosers_cons_closer rfl after
  · rfl

/-! ## One visit -/

/-- A kind of tag to which one brace is like another that faces the same way. -/
structure Coarse (p : Tag → Bool) : Prop where
  opener : ∀ {t : Tag}, t.isOpenBrace = true → p .mappingStart = p t
  closer : ∀ {t : Tag}, t.isCloseBrace = true → p .mappingEnd = p t

theorem coarse_isOpenBrace : Coarse Tag.isOpenBrace where
  opener opens := opens.symm
  closer closes := (Tag.isOpenBrace_of_isCloseBrace closes).symm

theorem coarse_isCloseBrace : Coarse Tag.isCloseBrace where
  opener opens := (Tag.isCloseBrace_of_isOpenBrace opens).symm
  closer closes := closes.symm

theorem coarse_colon : Coarse (· = .colon) where
  opener opens := (decide_eq_false (noColon_of_isOpenBrace opens)).symm
  closer closes := (decide_eq_false (noColon_of_isCloseBrace closes)).symm

/-- How much of a kind a wrapper brings. -/
def ofWrapper (p : Tag → Bool) : Nat :=
  [Tag.indent, Tag.outdent].countP p

/-- Both sides of a pair when it is dressed: another tag on each brace, and a wrapper or none. -/
theorem countP_sides {p : Tag → Bool} (coarse : Coarse p) {o c : Token} (braces : o.Braces c)
    (before after : Tokens) :
    (openSide o before).countP (p ·.tag) + (closeSide o before c after).countP (p ·.tag) =
      (o :: before).countP (p ·.tag) + (c :: after).countP (p ·.tag) +
        (if wraps o before then 1 else 0) * ofWrapper p := by
  have first := coarse.opener braces.1
  have last := coarse.closer braces.2
  simp only [openSide, closeSide, ofWrapper]
  split
  · simp only [List.countP_cons, List.countP_nil, Token.retag, Token.generated, Token.bare, first,
      last]
    omega
  · simp only [List.countP_cons, Token.retag, first, last]
    omega

theorem length_sides (o c : Token) (before after : Tokens) :
    (closeSide o before c after).length = after.length + 1 + if wraps o before then 1 else 0 := by
  simp only [closeSide]
  split <;> simp

/-- What a visit does to the tokens ahead, and to the counts, where it puts so many wrappers around
a class body and drops so many colons. -/
structure Changes (before : Tokens) (t : Token) (after : Tokens) (next : Cursor)
    (wrapped dropped : Nat) : Prop where
  ahead : noClosers next.rest = noClosers after
  length : next.rest.length + dropped = after.length + wrapped
  few : wrapped ≤ [t].countP (·.tag = .colon)
  counts : ∀ {p : Tag → Bool}, Coarse p →
    next.tokens.countP (p ·.tag) + dropped * [Tag.colon].countP p =
      (before.reverse ++ t :: after).countP (p ·.tag) + wrapped * ofWrapper p

theorem LeadsTo.changes {before after : Tokens} {t : Token} {next : Cursor}
    (leads : LeadsTo before t after next) :
    ∃ wrapped dropped, Changes before t after next wrapped dropped := by
  cases leads with
  | keep other =>
      exact ⟨0, 0, rfl, rfl, Nat.zero_le _, fun _ => by simp [Cursor.tokens]⟩
  | @drop o _ c colon spelled before after =>
      obtain ⟨opens, closes⟩ := braces_of_isEmptyMapping spelled
      refine ⟨0, 1, (noClosers_cons_closer closes after).symm, rfl, Nat.zero_le _, ?_⟩
      intro p coarse
      simp only [Cursor.tokens, Token.retag, List.countP_append, List.countP_reverse,
        List.countP_cons, List.countP_nil, coarse.opener opens, coarse.closer closes, colon]
      omega
  | @dress o _ c colon braces passed before between after =>
      refine ⟨if wraps o before then 1 else 0, 0, ?_, ?_, ?_, ?_⟩
      · rw [noClosers_append, noClosers_closeSide braces.2, noClosers_append]
      · simp only [List.length_append, length_sides, List.length_cons]
        omega
      · simp only [colon, List.countP_cons, List.countP_nil]
        split <;> decide
      · intro p coarse
        have sides := countP_sides coarse braces before after
        simp only [Cursor.tokens, List.countP_append, List.countP_reverse, List.reverse_cons,
          List.countP_cons, List.countP_nil, List.append_assoc] at sides ⊢
        omega

/-! ## A walk -/

/-- What is noted down of each visit, the last one first: the token and the tokens after it. -/
abbrev Record := List (Token × Tokens)

def noteAhead (record : Record) (_ : Tokens) (t : Token) (after : Tokens) : Record :=
  (t, after) :: record

/-- The tokens visited, in the order of the visits. -/
def visitedIn (record : Record) : Tokens :=
  (record.map Prod.fst).reverse

theorem visitedIn_cons (t : Token) (after : Tokens) (record : Record) :
    visitedIn ((t, after) :: record) = visitedIn record ++ [t] :=
  List.reverse_cons

/-- At each visit the tokens visited before and the tokens ahead make up the stream. -/
def VisitedOrAhead (s : Tokens) (record : Record) : Prop :=
  ∀ later t after earlier, record = later ++ (t, after) :: earlier →
    noClosers s = noClosers (visitedIn earlier) ++ noClosers (t :: after)

/-- Where a walk over the stream `s` is, when it has put so many wrappers around class bodies and
dropped so many colons. -/
structure Accounted (s : Tokens) (record : Record) (c : Cursor) (wrapped dropped : Nat) :
    Prop where
  parts : noClosers s = noClosers (visitedIn record) ++ noClosers c.rest
  always : VisitedOrAhead s record
  length : record.length + c.rest.length + dropped = s.length + wrapped
  counts : ∀ {p : Tag → Bool}, Coarse p →
    c.tokens.countP (p ·.tag) + dropped * [Tag.colon].countP p =
      s.countP (p ·.tag) + wrapped * ofWrapper p

theorem accounted_start (s : Tokens) : Accounted s [] (Cursor.start s) 0 0 where
  parts := rfl
  always := fun later t after earlier none => by simp at none
  length := by simp [Cursor.start]
  counts := fun _ => by simp [Cursor.start, Cursor.tokens]

namespace Accounted

variable {s before after : Tokens} {record : Record} {t : Token} {c next : Cursor}
  {wrapped dropped more less : Nat}

/-- The visit is made, whether it fails or not. -/
theorem visits (accounted : Accounted s record ⟨before, t :: after⟩ wrapped dropped) :
    VisitedOrAhead s ((t, after) :: record) := by
  intro later u behind earlier split
  cases later with
  | nil =>
      obtain ⟨⟨rfl, rfl⟩, rfl⟩ : (t = u ∧ after = behind) ∧ record = earlier := by
        simpa using split
      exact accounted.parts
  | cons v later => exact accounted.always later u behind earlier (List.cons.inj split).2

theorem step (accounted : Accounted s record ⟨before, t :: after⟩ wrapped dropped)
    (changes : Changes before t after next more less) :
    Accounted s ((t, after) :: record) next (wrapped + more) (dropped + less) where
  parts := by
    rw [accounted.parts, visitedIn_cons, noClosers_append, changes.ahead, List.append_assoc,
      ← noClosers_append [t] after]
    rfl
  always := accounted.visits
  length := by
    have sofar := accounted.length
    have here := changes.length
    simp only [List.length_cons] at sofar ⊢
    omega
  counts := by
    intro p coarse
    have sofar := accounted.counts coarse
    have here := changes.counts coarse
    simp only [Cursor.tokens, Nat.add_mul] at sofar here ⊢
    omega

theorem openers (accounted : Accounted s record c wrapped dropped) :
    c.tokens.countP (·.tag.isOpenBrace) = s.countP (·.tag.isOpenBrace) + wrapped := by
  simpa [ofWrapper, Tag.isOpenBrace] using accounted.counts coarse_isOpenBrace

theorem closers (accounted : Accounted s record c wrapped dropped) :
    c.tokens.countP (·.tag.isCloseBrace) = s.countP (·.tag.isCloseBrace) + wrapped := by
  simpa [ofWrapper, Tag.isCloseBrace] using accounted.counts coarse_isCloseBrace

theorem colons (accounted : Accounted s record c wrapped dropped) :
    c.tokens.countP (·.tag = .colon) + dropped = s.countP (·.tag = .colon) := by
  simpa [ofWrapper] using accounted.counts coarse_colon

end Accounted

/-- How many visits a walk has ahead at most: that of a colon may bring a token more, and none
brings a colon. -/
def budgetFor (rest : Tokens) : Nat :=
  rest.length + rest.countP (·.tag = .colon)

theorem Changes.budgetFor_lt {before after : Tokens} {t : Token} {next : Cursor}
    {wrapped dropped : Nat} (changes : Changes before t after next wrapped dropped) :
    budgetFor next.rest < budgetFor (t :: after) := by
  have colons : next.rest.countP (·.tag = .colon) = after.countP (·.tag = .colon) := by
    rw [← length_ofTag, ofTag_congr rfl changes.ahead, length_ofTag]
  have length := changes.length
  have few := changes.few
  simp only [budgetFor, List.length_cons, List.countP_cons, List.countP_nil] at few ⊢
  omega

/-- How a walk ends: behind the stream, or at a visit that fails. -/
inductive EndsAt : Record → Cursor → Cursor.Walk Record Fault → Prop
  | finished (record : Record) (before : Tokens) :
      EndsAt record ⟨before, []⟩ ⟨record, before.reverse, .finished⟩
  | failed (record : Record) (before : Tokens) (t : Token) (after : Tokens) (fault : Fault) :
      EndsAt record ⟨before, t :: after⟩
        ⟨(t, after) :: record, before.reverse ++ t :: after, .failed fault⟩

/-- **A walk ends**, and where it ends everything is accounted for. -/
theorem walk_ends {s : Tokens} {record : Record} {c : Cursor}
    {wrapped dropped budget : Nat} (accounted : Accounted s record c wrapped dropped)
    (enough : budgetFor c.rest ≤ budget) :
    ∃ record' c' wrapped' dropped', Accounted s record' c' wrapped' dropped' ∧
      EndsAt record' c' (Cursor.walk (visit.recording noteAhead) budget record c) := by
  induction budget generalizing record c wrapped dropped with
  | zero =>
      obtain ⟨before, - | ⟨t, after⟩⟩ := c
      · exact ⟨_, _, _, _, accounted, .finished record before⟩
      · simp [budgetFor] at enough
  | succ budget ih =>
      obtain ⟨before, - | ⟨t, after⟩⟩ := c
      · exact ⟨_, _, _, _, accounted, .finished record before⟩
      · simp only [Cursor.walk, Cursor.PlainVisit.recording]
        cases visited : visit before t after with
        | error fault => exact ⟨_, _, _, _, accounted, .failed record before t after fault⟩
        | ok step =>
            obtain ⟨c, places⟩ := step
            obtain ⟨more, less, changes⟩ := (leadsTo_of_visit visited).changes
            have fewer := changes.budgetFor_lt
            exact ih (accounted.step changes) (Nat.le_of_lt_succ (Nat.lt_of_lt_of_le fewer enough))

/-! ## The pass -/

/-- **The mapping pass ends and misses no colon.**  It makes at most as many visits as there are
tokens and class bodies that it wraps; a wrapper is the one thing that brings a brace of either
kind.  At each visit the tokens visited before and those ahead make up the stream, close braces
apart: so a generated `INDENT` is never ahead, and when the pass succeeds, each colon has been
visited once and in order, and of the `INDENT`s just those of the stream. -/
theorem markMappings_visits (s : Tokens) :
    let done := Cursor.walk (visit.recording noteAhead) (2 * s.length) [] (Cursor.start s)
    let visited := visitedIn done.state
    (∀ out, markMappings s = .ok out ↔ done.ending = .finished ∧ done.tokens = out) ∧
    (∀ fault, markMappings s = .error fault ↔ done.ending = .failed fault) ∧
    done.ending ≠ .cutOff ∧
    VisitedOrAhead s done.state ∧
    ∃ wrapped,
      done.tokens.countP (·.tag.isOpenBrace) = s.countP (·.tag.isOpenBrace) + wrapped ∧
      done.tokens.countP (·.tag.isCloseBrace) = s.countP (·.tag.isCloseBrace) + wrapped ∧
      visited.length ≤ s.length + wrapped ∧
      ∀ out, markMappings s = .ok out →
        noClosers visited = noClosers s ∧
        ofTag .colon visited = ofTag .colon s ∧
        ofTag .indent visited = ofTag .indent s ∧
        visited.length + s.countP (·.tag = .colon) =
          s.length + wrapped + out.countP (·.tag = .colon) := by
  have outcome : Cursor.scan visit (2 * s.length) s = _ :=
    Cursor.scan_eq_recording noteAhead (2 * s.length) [] s
  have enough : budgetFor (Cursor.start s).rest ≤ 2 * s.length := by
    have few := s.countP_le_length (p := fun t => t.tag = .colon)
    simp only [budgetFor, Cursor.start]
    omega
  obtain ⟨record, c, wrapped, dropped, accounted, ends⟩ := walk_ends (accounted_start s) enough
  revert outcome ends
  generalize Cursor.walk (visit.recording noteAhead) (2 * s.length) [] (Cursor.start s) = done
  intro outcome ends done visited
  have visits : visited.length = done.state.length := by simp [visited, visitedIn]
  cases ends with
  | finished before =>
      have made : markMappings s = .ok before.reverse := outcome
      have seen : noClosers visited = noClosers s := by
        rw [accounted.parts]
        exact (List.append_nil _).symm
      have same : done.tokens = (⟨before, []⟩ : Cursor).tokens := (List.append_nil _).symm
      have length : done.state.length + dropped = s.length + wrapped := accounted.length
      refine ⟨fun out => ?_, fun fault => ?_, ?_, accounted.always, wrapped, ?_, ?_, ?_, ?_⟩
      · simp [made, done]
      · simp [made, done]
      · simp [done]
      · rw [same, accounted.openers]
      · rw [same, accounted.closers]
      · omega
      · intro out made'
        have colons := accounted.colons
        obtain rfl : before.reverse = out := Except.ok.inj (made.symm.trans made')
        refine ⟨seen, ofTag_congr rfl seen, ofTag_congr rfl seen, ?_⟩
        rw [← same] at colons
        simp only [done] at colons visits length
        omega
  | failed before t after fault =>
      have failed : markMappings s = .error fault := outcome
      have length := accounted.length
      refine ⟨fun out => ?_, fun fault' => ?_, ?_, accounted.visits, wrapped, accounted.openers,
        accounted.closers, ?_, ?_⟩
      · simp [failed, done]
      · simp [failed, done]
      · simp [done]
      · simp only [done, List.length_cons] at visits length
        omega
      · intro out made
        rw [failed] at made
        cases made

/-- A class body with two members, the second an empty mapping. -/
def twoMembers : Tokens :=
  [.onFirstLine .classWord 0, .onFirstLineAs .indent "\x7b" 1, .onFirstLineAs .identifier "a" 2,
   .onFirstLine .colon 3, .onFirstLine .number 4, .onFirstLine .comma 5,
   .onFirstLineAs .identifier "b" 6, .onFirstLine .colon 7, .onFirstLineAs .indent "\x7b" 8,
   .onFirstLine .colon 9, .onFirstLineAs .outdent "\x7d" 10, .onFirstLineAs .outdent "\x7d" 11]

/-- A wrapper comes and a colon goes, so there are as many visits as tokens. -/
theorem markMappings_visits_twoMembers :
    let done := Cursor.walk (visit.recording noteAhead) 24 [] (Cursor.start twoMembers)
    ∃ out, markMappings twoMembers = .ok out ∧
      out.map Token.tag = [.classWord, .indent, .mappingStart, .identifier, .colon, .number, .comma,
        .identifier, .colon, .mappingStart, .mappingEnd, .mappingEnd, .outdent] ∧
      (visitedIn done.state).length = 12 ∧
      ofTag .colon (visitedIn done.state) =
        [.onFirstLine .colon 3, .onFirstLine .colon 7, .onFirstLine .colon 9] ∧
      ofTag .indent (visitedIn done.state) =
        [.onFirstLineAs .indent "\x7b" 1, .onFirstLineAs .indent "\x7b" 8] := by
  intro done
  obtain ⟨out, made, tags⟩ : ∃ out, markMappings twoMembers = .ok out ∧
      out.map Token.tag = [.classWord, .indent, .mappingStart, .identifier, .colon, .number, .comma,
        .identifier, .colon, .mappingStart, .mappingEnd, .mappingEnd, .outdent] := ⟨_, rfl, rfl⟩
  obtain ⟨finished, -, -, -, wrapped, openers, -, -, succeeds⟩ := markMappings_visits twoMembers
  obtain ⟨-, colons, indents, visits⟩ := succeeds out made
  have count : ∀ p : Tag → Bool, out.countP (p ·.tag) = (out.map Token.tag).countP p := by
    intro p
    rw [List.countP_map]
    rfl
  rw [((finished out).1 made).2, count Tag.isOpenBrace, tags] at openers
  rw [count (· = .colon), tags] at visits
  have one : wrapped = 1 := by
    have opened : 3 = 2 + wrapped := openers
    omega
  refine ⟨out, made, tags, ?_, colons, indents⟩
  have counted : (visitedIn done.state).length + 3 = 12 + wrapped + 2 := visits
  omega

end TokenLayout.Braces
