/-
# TokenLayout.Proofs.Shape -- the fate of a run is told by the shape of its stream

The shape of a stream is what a pass reads of its tokens (`Token.shape`): tags, which tokens
were generated, which open the block of a `then`, and which braces and colons are spelled as
in the empty mapping.  Texts, places, origins and the rest of the provenance do not matter.
So one script makes the outcome of every stream of a shape (`Makes`), or else all of them
fail with one fault in one stage.  Main statement: `Resolver.run_of_shape`.

The script is read off the run on one stream of the shape, in which each token is marked
with its place (`markFrom`).  No other stream of the shape can be told apart from it by a
pass, so the outcomes are token by token the same but for what the marks stand for
(`Traces`), and where a mark turns up in one outcome, the token it stands for is in the other.
-/
import TokenLayout.Proofs.Kinship
import TokenLayout.Proofs.Routes

namespace TokenLayout

set_option autoImplicit false

open List (Forall₂)

/-! ## Shapes and scripts -/

/-- What a pass reads of a token. -/
structure Shape where
  tag : Tag
  isGenerated : Bool
  fromThen : Bool
  /-- A brace or a colon spelled as in the empty mapping. -/
  spellsMapping : Bool
  deriving DecidableEq

def Token.shape (t : Token) : Shape :=
  ⟨t.tag, t.isGenerated, t.fromThen, t.spellsMapping⟩

/-- One step of a script. -/
inductive Change where
  /-- The next token is kept under this tag. -/
  | keep (tag : Tag)
  /-- The next token is dropped. -/
  | drop
  /-- A token of this tag is put in. -/
  | insert (tag : Tag) (provenance : Provenance)
  deriving DecidableEq

/-- A script makes an outcome of a stream.  A token that is kept may be put elsewhere and get
another tag, but is otherwise the same. -/
inductive Makes : List Change → Tokens → Tokens → Prop
  | nil : Makes [] [] []
  | keep {script : List Change} {tokens out : Tokens} {t : Token} {tag : Tag}
      (location : Option Location) (becomes : t.tag.Becomes tag)
      (later : Makes script tokens out) : Makes (.keep tag :: script) (t :: tokens)
        ({ t with tag := tag, location := location } :: out)
  | drop {script : List Change} {tokens out : Tokens} {t : Token}
      (needless : t.tag = .terminator ∨ t.tag = .colon) (later : Makes script tokens out) :
      Makes (.drop :: script) (t :: tokens) out
  | insert {script : List Change} {tokens out : Tokens} {u : Token} {tag : Tag}
      {provenance : Provenance} {cause : Origin} (made : u.Made provenance tag cause)
      (later : Makes script tokens out) :
      Makes (.insert tag provenance :: script) tokens (u :: out)

/-! ## Chains on kin streams -/

/-- An error of a stage without the place of its fault. -/
def StageError.placeless : StageError → StageError
  | failed stage fault => failed stage fault.placeless
  | e => e

/-- Two outcomes of stages are both results, and related, or both one error at two places. -/
inductive Stage.Outcomes (related : Tokens → Tokens → Prop) :
    Except StageError Tokens → Except StageError Tokens → Prop
  | ok {a b : Tokens} (results : related a b) : Outcomes related (.ok a) (.ok b)
  | error {d e : StageError} (errors : d.placeless = e.placeless) :
      Outcomes related (.error d) (.error e)

section

variable {kin : Token → Token → Prop} {tokens tokens' : Tokens}

theorem Outcomes.inStage {related : Tokens → Tokens → Prop} {x y : Except Fault Tokens}
    (outcomes : Outcomes related x y) (stage : String) :
    Stage.Outcomes related (x.mapError (.failed stage)) (y.mapError (.failed stage)) := by
  cases outcomes with
  | ok results => exact .ok results
  | error faults => exact .error (congrArg (StageError.failed stage) faults)

theorem Stage.run_kin (kinship : Kinship kin) (stage : Stage) (streams : Forall₂ kin tokens tokens') :
    Stage.Outcomes (Forall₂ kin) (stage.run tokens) (stage.run tokens') := by
  cases stage with
  | pass p => exact (p.apply_kin kinship streams).inStage _
  | resolve r => exact (r.run_kin kinship streams).inStage _
  | balance =>
      have balance := checkBalance_kin kinship .nil streams
      exact (balance.map fun _ => streams).inStage _
  | fail message => exact .error rfl

/-- A chain treats kin streams alike, and fails on both in one stage or on neither. -/
theorem Chain.run_kin (kinship : Kinship kin) (chain : Chain)
    (streams : Forall₂ kin tokens tokens') :
    Stage.Outcomes (Forall₂ kin) (chain.run tokens) (chain.run tokens') := by
  induction chain generalizing tokens tokens' with
  | nil => exact .ok streams
  | cons stage later ih =>
      have first := stage.run_kin kinship streams
      simp only [Chain.run, List.foldlM_cons]
      revert first
      generalize stage.run tokens = x, stage.run tokens' = y
      intro first
      cases first with
      | ok results => exact ih results
      | error errors => exact .error errors

end

/-! ## Marks -/

/-- What no mark is: a text that does not begin as one. -/
def Unmarked (text : String) : Prop :=
  text.toList.head? ≠ some '#'

instance : DecidablePred Unmarked := fun text =>
  inferInstanceAs (Decidable (text.toList.head? ≠ some '#'))

theorem unmarked_defaultText (tag : Tag) : Unmarked tag.defaultText := by
  cases tag <;> decide

/-- The mark of a place, worn as an origin, since no pass looks at those. -/
def mark (place : Nat) : Origin :=
  ⟨.terminator, String.ofList (List.replicate (place + 1) '#'), none⟩

theorem mark_inj {i j : Nat} (same : mark i = mark j) : i = j := by
  have value := congrArg (fun o : Origin => o.value.toList.length) same
  simpa [mark] using value

theorem not_unmarked_mark (place : Nat) : ¬Unmarked (mark place).value := by
  simp [Unmarked, mark, List.replicate_succ]

/-- The text of a tag that spells a mapping. -/
def Tag.mappingText? (tag : Tag) : Option String :=
  if tag.isOpenBrace then some "\x7b"
  else if tag = .colon then some ":"
  else if tag.isCloseBrace then some "\x7d"
  else none

theorem spellsMapping_iff {t : Token} :
    t.spellsMapping = true ↔ t.tag.mappingText? = some t.value := by
  rw [Token.spellsMapping, Tag.mappingText?]
  cases opens : t.tag.isOpenBrace with
  | true =>
      simp [Tag.isCloseBrace_of_isOpenBrace opens, Braces.noColon_of_isOpenBrace opens,
        eq_comm (a := t.value)]
  | false =>
      by_cases colon : t.tag = .colon
      · simp [colon, Tag.isCloseBrace, eq_comm (a := t.value)]
      · simp [colon, eq_comm (a := t.value)]

theorem unmarked_mappingText {tag : Tag} {text : String} (spells : tag.mappingText? = some text) :
    Unmarked text ∧ text ≠ "" := by
  rw [Tag.mappingText?] at spells
  split_ifs at spells <;> obtain rfl := Option.some.inj spells <;> decide

/-- The token of the same shape that is told by its place and by nothing else. -/
def Token.marked (t : Token) (place : Nat) : Token :=
  ⟨t.tag, if t.spellsMapping then t.value else "", none,
    if t.isGenerated then .generated else .source, some (mark place), t.fromThen⟩

/-- Each token marked with its place, the first one with this place. -/
def markFrom (place : Nat) : Tokens → Tokens
  | [] => []
  | t :: rest => t.marked place :: markFrom (place + 1) rest

theorem unmarked_marked (t : Token) (place : Nat) : Unmarked (t.marked place).value := by
  simp only [Token.marked]
  split
  · rename_i spells
    exact (unmarked_mappingText (spellsMapping_iff.1 spells)).1
  · decide

theorem shape_marked (t : Token) (place : Nat) : (t.marked place).shape = t.shape := by
  have isGenerated : (t.marked place).isGenerated = t.isGenerated := by
    rw [Token.isGenerated, Token.marked]
    cases t.isGenerated <;> rfl
  have spellsMapping : (t.marked place).spellsMapping = t.spellsMapping := by
    cases spells : t.spellsMapping with
    | true =>
        have text : (t.marked place).value = t.value := if_pos spells
        rw [spellsMapping_iff, text]
        exact spellsMapping_iff.1 spells
    | false =>
        have text : (t.marked place).value = "" := if_neg (by simp [spells])
        rw [← Bool.not_eq_true, spellsMapping_iff, text]
        exact fun empty => (unmarked_mappingText empty).2 rfl
  rw [Token.shape, isGenerated, spellsMapping]
  rfl

theorem unmarked_of_mem_markFrom {place : Nat} {tokens : Tokens} {c : Token}
    (member : c ∈ markFrom place tokens) : Unmarked c.value := by
  induction tokens generalizing place with
  | nil => cases member
  | cons t rest ih =>
      rcases List.mem_cons.1 member with rfl | later
      · exact unmarked_marked t place
      · exact ih later

theorem markFrom_eq_cons {place : Nat} {tokens input : Tokens} {c : Token}
    (same : c :: input = markFrom place tokens) :
    ∃ t rest, tokens = t :: rest ∧ c = Token.marked t place ∧
      input = markFrom (place + 1) rest := by
  cases tokens with
  | nil => cases same
  | cons t rest =>
      obtain ⟨rfl, rfl⟩ := List.cons.inj same
      exact ⟨t, rest, rfl, rfl, rfl⟩

/-! ## What the marks stand for -/

/-- A token `c` of the run on marked tokens, and the one in its place in the run on others.  Either
`c` is a marked token, and the other one that at the marked place; or both were inserted. -/
structure Traces (tokens : Tokens) (c x : Token) : Prop where
  tag : c.tag = x.tag
  isGenerated : c.isGenerated = x.isGenerated
  fromThen : c.fromThen = x.fromThen
  spellsMapping : c.spellsMapping = x.spellsMapping
  unmarked : Unmarked c.value
  whence : (∃ place t, tokens[place]? = some t ∧ c.origin = some (mark place) ∧
      c.provenance ≠ .explicit ∧ x = { t with tag := x.tag, location := x.location }) ∨
    ((∀ o ∈ c.origin, Unmarked o.value) ∧ x.origin.isSome = true ∧ c.value = x.value ∧
      c.provenance = x.provenance)

/-- How a token spells a mapping after a change of its tag depends on how it did before. -/
theorem spellsMapping_retag {t u : Token} {tag : Tag} (same : t.tag = u.tag)
    (spells : t.spellsMapping = u.spellsMapping) (notColon : tag ≠ .colon)
    (opens : tag.isOpenBrace = true → t.tag.isOpenBrace = true)
    (closes : tag.isCloseBrace = true → t.tag.isCloseBrace = true) :
    (t.retag tag).spellsMapping = (u.retag tag).spellsMapping := by
  -- a brace was a brace of the same side before, and anything else spells no mapping now
  have text : tag.mappingText? = t.tag.mappingText? ∨ tag.mappingText? = none := by
    rw [Tag.mappingText?, Tag.mappingText?, if_neg notColon]
    cases opener : tag.isOpenBrace with
    | true => simp [opens opener]
    | false =>
        cases closer : tag.isCloseBrace with
        | true =>
            have isClose := closes closer
            simp [isClose, Tag.isOpenBrace_of_isCloseBrace isClose,
              Braces.noColon_of_isCloseBrace isClose]
        | false => simp
  rw [Bool.eq_iff_iff, spellsMapping_iff, spellsMapping_iff] at spells ⊢
  show tag.mappingText? = some t.value ↔ tag.mappingText? = some u.value
  rcases text with unchanged | none
  · rw [unchanged, spells, same]
  · simp [none]

/-- Tokens inserted because of two tokens that stand for each other do so too. -/
theorem Traces.caused {tokens : Tokens} {c x : Token} (same : Traces tokens c x) (tag : Tag)
    (provenance : Provenance) :
    Traces tokens { Token.bare tag with provenance := provenance, origin := some c.snapshot }
      { Token.bare tag with provenance := provenance, origin := some x.snapshot } := by
  refine ⟨rfl, rfl, rfl, rfl, unmarked_defaultText tag, .inr ⟨?_, rfl, rfl, rfl⟩⟩
  intro o origin
  obtain rfl := Option.some.inj origin
  exact same.unmarked

/-- Other tags and other locations do not change what stands for what. -/
theorem Traces.changed {tokens : Tokens} {c x : Token} (same : Traces tokens c x) {tag tag' : Tag}
    {l l' : Option Location} (alike : tag = tag')
    (spells : { c with tag := tag, location := l }.spellsMapping =
      { x with tag := tag', location := l' }.spellsMapping) :
    Traces tokens { c with tag := tag, location := l } { x with tag := tag', location := l' } := by
  refine ⟨alike, same.isGenerated, same.fromThen, spells, same.unmarked, ?_⟩
  rcases same.whence with ⟨place, t, there, origin, provenance, whole⟩ | inserted
  · refine .inl ⟨place, t, there, origin, provenance, ?_⟩
    rw [whole]
  · exact .inr inserted

theorem kinship_traces (tokens : Tokens) : Kinship (Traces tokens) where
  tag same := same.tag
  isGenerated same := same.isGenerated
  fromThen same := same.fromThen
  spellsMapping same := same.spellsMapping
  retag same notColon opens closes :=
    same.changed rfl (spellsMapping_retag same.tag same.spellsMapping notColon opens closes)
  generated tag _ _ same := same.caused tag .generated
  explicit tag _ _ same := same.caused tag .explicit
  place _ _ same := same.changed same.tag same.spellsMapping

/-- Every stream of a shape is kin to the marked one. -/
theorem traces_markFrom {s t : Tokens} (front : Tokens) (same : t.map Token.shape = s.map Token.shape) :
    Forall₂ (Traces (front ++ t)) (markFrom front.length s) t := by
  induction s generalizing t front with
  | nil =>
      obtain rfl : t = [] := by simpa using same
      exact .nil
  | cons a s ih =>
      obtain ⟨b, rest, rfl, shape, later⟩ := List.map_eq_cons_iff.1 same
      have whole : front ++ b :: rest = (front ++ [b]) ++ rest := by simp
      have onward := ih (front ++ [b]) later
      rw [List.length_append, ← whole] at onward
      refine .cons ?_ onward
      have shapes : (a.marked front.length).shape = b.shape := by rw [shape_marked, shape]
      simp only [Token.shape, Shape.mk.injEq] at shapes
      obtain ⟨tag, isGenerated, fromThen, spellsMapping⟩ := shapes
      refine ⟨tag, isGenerated, fromThen, spellsMapping, unmarked_marked a _, .inl
        ⟨front.length, b, by simp, rfl, ?_, rfl⟩⟩
      simp only [Token.marked]
      split <;> decide

/-! ## The script -/

/-- One script makes what the marked tokens from this place on have become, and what has become
of the tokens in their places in any other stream. -/
def Scripted (place : Nat) (s outcome : Tokens) : Prop :=
  ∃ script, ∀ t out : Tokens, (t.drop place).map Token.shape = s.map Token.shape →
    Forall₂ (Traces t) outcome out → Makes script (t.drop place) out

section

variable {place : Nat} {s outcome : Tokens} {a u : Token}

/-- The token at a place, and those behind it. -/
theorem drop_eq_cons {t : Tokens} (same : (t.drop place).map Token.shape = (a :: s).map Token.shape) :
    ∃ b, t[place]? = some b ∧ t.drop place = b :: t.drop (place + 1) ∧ b.shape = a.shape ∧
      (t.drop (place + 1)).map Token.shape = s.map Token.shape := by
  obtain ⟨b, rest, split, shape, later⟩ := List.map_eq_cons_iff.1 same
  obtain ⟨here, behind⟩ := getElem?_of_drop split
  exact ⟨b, here, by rw [split, behind], shape, by rw [behind]; exact later⟩

theorem Scripted.nil : Scripted place [] [] := by
  refine ⟨[], fun t out same traces => ?_⟩
  have empty : t.drop place = [] := by simpa using same
  cases traces
  rw [empty]
  exact .nil

/-- What becomes of a marked token becomes of the token in its place. -/
theorem Scripted.keep (survives : Survives (a.marked place) u)
    (later : Scripted (place + 1) s outcome) : Scripted place (a :: s) (u :: outcome) := by
  obtain ⟨script, makes⟩ := later
  refine ⟨.keep u.tag :: script, fun t out same traces => ?_⟩
  obtain ⟨b, here, split, shape, behind⟩ := drop_eq_cons same
  obtain ⟨x, out, one, rest, rfl⟩ := List.forall₂_cons_left_iff.1 traces
  -- the token still wears its mark, so the one in its place is the one at that place
  have origin : u.origin = some (mark place) := by rw [survives.fields]; rfl
  rcases one.whence with ⟨place', t', there, origin', -, whole⟩ | ⟨unmarked, -⟩
  · obtain rfl := mark_inj (Option.some.inj (origin.symm.trans origin'))
    obtain rfl := Option.some.inj (here.symm.trans there)
    have tag : a.tag = b.tag := (congrArg Shape.tag shape).symm
    have becomes : b.tag.Becomes u.tag := tag ▸ survives.tag
    rw [split, whole, ← one.tag]
    exact .keep x.location becomes (makes t out behind rest)
  · exact absurd (unmarked _ origin) (not_unmarked_mark place)

theorem Scripted.drop (needless : a.tag = .terminator ∨ a.tag = .colon)
    (later : Scripted (place + 1) s outcome) : Scripted place (a :: s) outcome := by
  obtain ⟨script, makes⟩ := later
  refine ⟨.drop :: script, fun t out same traces => ?_⟩
  obtain ⟨b, -, split, shape, behind⟩ := drop_eq_cons same
  have tag : b.tag = a.tag := congrArg Shape.tag shape
  rw [split]
  exact .drop (tag ▸ needless) (makes t out behind traces)

/-- A token that wears no mark was inserted, and so was the one in its place. -/
theorem Scripted.insert {provenance : Provenance} {tag : Tag} {cause : Origin}
    (made : u.Made provenance tag cause)
    (unmarked : provenance = .explicit ∨ Unmarked cause.value) (later : Scripted place s outcome) :
    Scripted place s (u :: outcome) := by
  obtain ⟨script, makes⟩ := later
  refine ⟨.insert tag provenance :: script, fun t out same traces => ?_⟩
  obtain ⟨x, out, one, rest, rfl⟩ := List.forall₂_cons_left_iff.1 traces
  rw [Token.Made] at made
  rcases one.whence with ⟨place', t', -, origin, notExplicit, -⟩ | ⟨-, caused, value, same'⟩
  · rw [made] at origin notExplicit
    rcases unmarked with explicit | unmarked
    · exact absurd explicit notExplicit
    · obtain rfl := Option.some.inj origin
      exact absurd unmarked (not_unmarked_mark place')
  · obtain ⟨cause', origin⟩ := Option.isSome_iff_exists.1 caused
    have tag' : x.tag = tag := one.tag.symm.trans (congrArg Token.tag made)
    have text : x.value = tag.defaultText := value.symm.trans (congrArg Token.value made)
    have fromThen : x.fromThen = false := one.fromThen.symm.trans (congrArg Token.fromThen made)
    have provenance' : x.provenance = provenance :=
      same'.symm.trans (congrArg Token.provenance made)
    have madeAlike : x.Made provenance tag cause' := by
      rw [Token.Made, ← text, ← tag', ← provenance', ← origin, ← fromThen]
    exact .insert madeAlike (makes t out same rest)

end

/-- No token that is inserted wears a mark. -/
theorem Inserted.made {stream : Tokens} {previous next : Option Token} {u : Token}
    (inserted : Inserted stream previous u next) (unmarked : ∀ c ∈ stream, Unmarked c.value) :
    ∃ provenance tag cause, u.Made provenance tag cause ∧
      (provenance = .explicit ∨ Unmarked cause.value) := by
  rcases inserted with ⟨construct, opener, -, member, -, made, -⟩ |
    ⟨brace, member, -, ⟨made, -⟩ | ⟨made, -⟩⟩ | ⟨p, n, cause, -, -, -, -, -, made, -⟩
  · exact ⟨_, _, _, made, .inr (unmarked opener member)⟩
  · exact ⟨_, _, _, made, .inr (unmarked brace member)⟩
  · exact ⟨_, _, _, made, .inr (unmarked brace member)⟩
  · exact ⟨_, _, _, made, .inl rfl⟩

/-- The script is read off what becomes of the marked tokens. -/
theorem scripted_of_follows {stream input outcome : Tokens} {previous : Option Token}
    (follows : Follows Survives (Inserted stream) previous input outcome)
    (unmarked : ∀ c ∈ stream, Unmarked c.value) {place : Nat} {s : Tokens}
    (marks : input = markFrom place s) : Scripted place s outcome := by
  induction follows generalizing place s with
  | nil =>
      cases s with
      | nil => exact .nil
      | cons a s => cases marks
  | keep kept later ih =>
      obtain ⟨a, s, rfl, rfl, behind⟩ := markFrom_eq_cons marks
      exact .keep kept (ih behind)
  | insert added later ih =>
      obtain ⟨provenance, tag, cause, made, unmarked⟩ := added.made unmarked
      exact .insert made unmarked (ih marks)
  | empty tag spelled opener closer starts ends later ih =>
      obtain ⟨a, s, rfl, rfl, behind⟩ := markFrom_eq_cons marks
      obtain ⟨b, s, rfl, rfl, beyond⟩ := markFrom_eq_cons behind
      obtain ⟨c, s, rfl, rfl, last⟩ := markFrom_eq_cons beyond
      exact .keep opener (.drop (.inr tag) (.keep closer (ih last)))

theorem scripted_of_leading {leading input outcome : Tokens} {place : Nat} {s : Tokens}
    (terminators : ∀ t ∈ leading, t.tag = .terminator) (marks : leading ++ input = markFrom place s)
    (later : ∀ {place s}, input = markFrom place s → Scripted place s outcome) :
    Scripted place s outcome := by
  induction leading generalizing place s with
  | nil => exact later marks
  | cons t leading ih =>
      obtain ⟨a, s, rfl, rfl, behind⟩ := markFrom_eq_cons marks
      exact .drop (.inl (terminators (a.marked place) (.head _)))
        (ih (fun u member => terminators u (.tail _ member)) behind)

namespace Resolver

/-- **The fate of a run is told by the shape of its stream.**  Either one script makes the outcomes
of all streams of a shape, or all of them fail with one fault, but for its place, in one stage. -/
theorem run_of_shape (r : Resolver) (s : Tokens) :
    (∃ script, ∀ t : Tokens, t.map Token.shape = s.map Token.shape →
      ∃ out, r.run t = .ok out ∧ Makes script t out) ∨
    ∃ stage fault, ∀ t : Tokens, t.map Token.shape = s.map Token.shape →
      ∃ f, r.run t = .error f ∧ f.placeless = fault ∧
        (Chain.passByPass r).run t = .error (.failed stage f) := by
  have kin : ∀ t : Tokens, t.map Token.shape = s.map Token.shape →
      Forall₂ (Traces t) (markFrom 0 s) t := fun t same => traces_markFrom [] same
  cases ran : r.run (markFrom 0 s) with
  | ok outcome =>
      left
      obtain ⟨leading, input, split, terminators, -, follows⟩ := run_follows r _ _ ran
      obtain ⟨script, makes⟩ : Scripted 0 s outcome :=
        scripted_of_leading terminators split.symm
          (scripted_of_follows follows fun c member => unmarked_of_mem_markFrom member)
      refine ⟨script, fun t same => ?_⟩
      have outcomes := run_kin (kinship_traces t) r (kin t same)
      rw [ran] at outcomes
      cases there : r.run t with
      | error fault =>
          rw [there] at outcomes
          cases outcomes
      | ok out =>
          rw [there] at outcomes
          cases outcomes with
          | ok traces => exact ⟨out, rfl, makes t out same traces⟩
  | error fault =>
      right
      obtain ⟨stage, failed⟩ := Chain.passByPass_error ran
      refine ⟨stage, fault.placeless, fun t same => ?_⟩
      have outcomes := run_kin (kinship_traces t) r (kin t same)
      have stages := (Chain.passByPass r).run_kin (kinship_traces t) (kin t same)
      rw [ran] at outcomes
      rw [failed] at stages
      cases there : r.run t with
      | ok out =>
          rw [there] at outcomes
          cases outcomes
      | error f =>
          rw [there] at outcomes
          cases outcomes with
          | error faults =>
              obtain ⟨stage', failed'⟩ := Chain.passByPass_error there
              rw [failed'] at stages
              cases stages with
              | error errors =>
                  obtain ⟨rfl, -⟩ := StageError.failed.inj errors
                  exact ⟨f, rfl, faults.symm, failed'⟩

/-- The same class and call in other words, read from elsewhere. -/
def reworded : Tokens :=
  classAndCall.map fun t =>
    if t.spellsMapping then { t with location := none } else { t with value := "_", location := none }

/-- It is resolved by the same script. -/
theorem run_of_shape_reworded :
    reworded.map Token.shape = classAndCall.map Token.shape ∧
      ∃ script out out', full.run classAndCall = .ok out ∧ full.run reworded = .ok out' ∧
        Makes script classAndCall out ∧ Makes script reworded out' := by
  have same : reworded.map Token.shape = classAndCall.map Token.shape := by decide
  refine ⟨same, ?_⟩
  rcases run_of_shape full classAndCall with ⟨script, makes⟩ | ⟨stage, fault, fails⟩
  · obtain ⟨out, done, makesOut⟩ := makes classAndCall rfl
    obtain ⟨out', done', makesOut'⟩ := makes reworded same
    exact ⟨script, out, out', done, done', makesOut, makesOut'⟩
  · obtain ⟨f, failed, -⟩ := fails classAndCall rfl
    cases failed

end Resolver

end TokenLayout
