/-
# TokenLayout.Proofs.Json.RoundTrip -- reading back a stream written as JSON

Every field that is written is read back, and a field that is left out holds what a
record holds before it is read.  So a stream reads back whole, whatever its texts hold,
as long as its lines and columns are numbers that are exact when read: those below
`2 ^ 64` (`Token.Exact`).  Main statement `tokens_write`.
-/
import TokenLayout.Proofs.Json.Records
import TokenLayout.Source

namespace TokenLayout

set_option autoImplicit false

open List (Forall₂)

/-! ## Numbers of 64 bits -/

/-- Line and column are numbers of 64 bits. -/
def Position.Exact (p : Position) : Prop :=
  p.line < 2 ^ 64 ∧ p.column < 2 ^ 64

def Location.Exact (l : Location) : Prop :=
  l.start.Exact ∧ l.stop.Exact

/-- All places a token remembers are given by numbers of 64 bits. -/
def Token.Exact (t : Token) : Prop :=
  (∀ l ∈ t.location, l.Exact) ∧ ∀ o ∈ t.origin, ∀ l ∈ o.location, l.Exact

namespace Json

/-! ## Values -/

theorem tag_reads (t : Tag) : Reads tag (writeString t.name.toList) t := by
  intro blanks rest blank parted
  have name := string_reads t.name.toList blanks rest blank parted
  rw [String.ofList_toList] at name
  rw [tag, name]
  simp only [Tag.ofName?_name]

theorem provenance_reads (p : Provenance) : Reads provenance (writeString p.name.toList) p := by
  intro blanks rest blank parted
  have name := string_reads p.name.toList [] rest .nil parted
  have known : Provenance.ofName? p.name = some p := by cases p <;> decide +kernel
  have text : writeString p.name.toList ++ rest =
      '"' :: (p.name.toList.flatMap escapeChar ++ '"' :: rest) := by
    simp [writeString]
  rw [String.ofList_toList, List.nil_append, text] at name
  rw [provenance, text, blank.skip_cons rfl]
  simp only [name, provenanceNamed, known]

theorem position_reads {p : Position} (exact : p.Exact) (level : Nat) :
    Reads positionRecord.read (writePosition level p) p := by
  refine Record.Fills.read ?_ (by simp) level
  refine .into rfl (by simp) (size_reads exact.1) ?_
  refine .into rfl (by simp) (size_reads exact.2) ?_
  exact .done (by simp [positionRecord])

theorem location_reads {l : Location} (exact : l.Exact) (level : Nat) :
    Reads locationRecord.read (writeLocation level l) l := by
  refine Record.Fills.read ?_ (by simp) level
  refine .into rfl (by simp) (position_reads exact.1 _) ?_
  refine .into rfl (by simp) (position_reads exact.2 _) ?_
  exact .done (by simp [locationRecord])

theorem head?_writeLocation (level : Nat) (l : Location) :
    (writeLocation level l).head? = some '{' :=
  head?_bracketed ..

/-- A text is read as the value it was written for. -/
theorem text_reads (s : String) : Reads string (writeString s.toList) s := by
  have reads := string_reads s.toList
  rwa [String.ofList_toList] at reads

/-- The location of an origin, where there is one. -/
def locationPart (level : Nat) : Option Location → List (List Char)
  | some l => [member "location" (writeLocation (level + 1) l)]
  | none => []

theorem fills_location (t : Tag) (value : String) {location : Option Location}
    (exact : ∀ l ∈ location, l.Exact) (level : Nat) :
    originRecord.Fills ["value", "tag"] ⟨t, value, none⟩ (locationPart level location)
      ⟨t, value, location⟩ := by
  cases location with
  | none => exact .done (by simp [originRecord])
  | some l =>
      refine .into rfl (by simp)
        (optional_reads_some (head?_writeLocation _ l) (location_reads (exact l rfl) _)) ?_
      exact .done (by simp [originRecord])

theorem origin_reads {o : Origin} (exact : ∀ l ∈ o.location, l.Exact) (level : Nat) :
    Reads originRecord.read (writeOrigin level o) o := by
  refine Record.Fills.read ?_ (by simp [tagAndValue]) level
  refine .into rfl (by simp) (tag_reads o.tag) ?_
  refine .into rfl (by simp) (text_reads o.value) ?_
  exact fills_location o.tag o.value exact level

/-! ## Tokens -/

section

variable (t : Token) {seen : List String} (tagged : "tag" ∈ seen) (fromThen : Bool)
  (origin : Option Origin) (exact : ∀ o ∈ origin, ∀ l ∈ o.location, l.Exact) (level : Nat)

/-- The mark of a `then` block, where it is there. -/
def fromThenPart (fromThen : Bool) : List (List Char) :=
  if fromThen then [member "from_then" "true".toList] else []

/-- The origin, where there is one. -/
def originPart (level : Nat) : Option Origin → List (List Char)
  | some o => [member "origin" (writeOrigin (level + 1) o)]
  | none => []

include tagged

theorem fills_fromThen (notThen : t.fromThen = false) (unseen : "from_then" ∉ seen) :
    tokenRecord.Fills seen t (fromThenPart fromThen) { t with fromThen := fromThen } := by
  have complete : ∀ more : List String, ∀ f ∈ tokenRecord.fields, f.required = true →
      f.name ∈ more ++ seen := by
    simp [tokenRecord, tagged]
  cases fromThen with
  | false =>
      have same : { t with fromThen := false } = t := by rw [← notThen]
      rw [same]
      exact .done (complete [])
  | true => exact .into rfl unseen boolean_reads_true (.done (complete ["from_then"]))

include exact

theorem fills_origin (none : t.origin = none) (notThen : t.fromThen = false)
    (unseen : "origin" ∉ seen ∧ "from_then" ∉ seen) :
    tokenRecord.Fills seen t (originPart level origin ++ fromThenPart fromThen)
      { t with origin := origin, fromThen := fromThen } := by
  cases origin with
  | none =>
      have same : { t with origin := .none, fromThen := fromThen } =
          { t with fromThen := fromThen } := by rw [← none]
      rw [same]
      exact fills_fromThen t tagged fromThen notThen unseen.2
  | some o =>
      refine .into rfl unseen.1
        (optional_reads_some (head?_bracketed ..) (origin_reads (exact o rfl) _)) ?_
      exact fills_fromThen { t with origin := some o } (by simp [tagged]) fromThen notThen
        (by simp [unseen.2])

theorem fills_provenance (provenance : Provenance) (source : t.provenance = .source)
    (none : t.origin = none) (notThen : t.fromThen = false)
    (unseen : "provenance" ∉ seen ∧ "origin" ∉ seen ∧ "from_then" ∉ seen) :
    tokenRecord.Fills seen t
      ((if provenance != .source then [member "provenance" (writeString provenance.name.toList)]
        else []) ++ (originPart level origin ++ fromThenPart fromThen))
      { t with provenance := provenance, origin := origin, fromThen := fromThen } := by
  by_cases same : provenance = .source
  · rw [if_neg (by simp [same]), List.nil_append, same, ← source]
    exact fills_origin t tagged fromThen origin exact level none notThen unseen.2
  · rw [if_pos (by simpa using same)]
    refine .into rfl unseen.1 (provenance_reads provenance) ?_
    exact fills_origin { t with provenance := provenance } (by simp [tagged]) fromThen origin exact
      level none notThen (by simp [unseen.2])

end

/-- **A written token is read back.** -/
theorem token_reads {t : Token} (exact : t.Exact) (level : Nat) :
    Reads tokenRecord.read (writeToken level t) t := by
  have location : Reads (optional locationRecord.read)
      (match t.location with
        | some l => writeLocation (level + 1) l
        | none => "null".toList) t.location := by
    cases place : t.location with
    | none => exact optional_reads_none _
    | some l =>
        exact optional_reads_some (head?_writeLocation _ l) (location_reads (exact.1 l place) _)
  unfold writeToken
  simp only [List.append_assoc]
  refine Record.Fills.read ?_ (by simp [tagAndValue]) level
  refine .into rfl (by simp) (tag_reads t.tag) ?_
  refine .into rfl (by simp) (text_reads t.value) ?_
  refine .into rfl (by simp) location ?_
  exact fills_provenance { tag := t.tag, value := t.value, location := t.location } (by simp)
    t.fromThen t.origin exact.2 level t.provenance rfl rfl rfl (by simp)

/-! ## Streams -/

theorem tokens_reads {tokens : Tokens} (exact : ∀ t ∈ tokens, t.Exact) :
    Reads (array tokenRecord.read) (write tokens).toList tokens := by
  have reads : Forall₂ (Reads tokenRecord.read) (tokens.map (writeToken 1)) tokens := by
    rw [List.forall₂_map_left_iff, List.forall₂_same]
    exact fun t member => token_reads (exact t member) 1
  have braced : ∀ part ∈ tokens.map (writeToken 1), part.head? = some '{' := by
    intro part member
    obtain ⟨t, -, rfl⟩ := List.mem_map.1 member
    exact head?_bracketed ..
  cases tokens with
  | nil => exact array_reads_nil _
  | cons t tokens =>
      have text : (write (t :: tokens)).toList =
          bracketed '[' ']' 0 ((t :: tokens).map (writeToken 1)) := by
        simp [write]
      rw [text]
      exact array_reads reads braced (by simp) 0

/-- **A stream written as JSON reads back.**  Every field of every token comes back, whatever the
values hold. -/
theorem tokens_write (tokens : Tokens) (exact : ∀ t ∈ tokens, t.Exact) :
    Source.tokens ⟨write tokens, .json⟩ = .ok tokens := by
  have none : Parted [] := fun c none => by cases none
  have done := tokens_reads exact [] [] .nil none
  rw [List.nil_append, List.append_nil] at done
  have read : read (write tokens) = .ok tokens := by
    rw [read, done]
    rfl
  rw [Source.tokens, read]
  rfl

theorem tokens_write_escaped :
    let far : Location := ⟨⟨0, 2 ^ 64 - 1⟩, ⟨2 ^ 64 - 1, 0⟩⟩
    let t : Token :=
      { tag := .stringLiteral, value := "\"\\\n\x01é😀", location := some far
        provenance := .generated, origin := some ⟨.mappingStart, "\t/", some far⟩
        fromThen := true }
    (∀ u ∈ [t, Token.bare .comma], u.Exact) ∧
      Source.tokens ⟨write [t, Token.bare .comma], .json⟩ = .ok [t, Token.bare .comma] := by
  intro far t
  have exact : ∀ u ∈ [t, Token.bare .comma], u.Exact := by
    simp [t, far, Token.Exact, Location.Exact, Position.Exact, Token.bare]
  exact ⟨exact, tokens_write _ exact⟩

end Json

end TokenLayout
