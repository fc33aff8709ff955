/-
# TokenLayout.Token -- the token record

A token is a tag, the text it was read from, a location unless it has none yet,
and a little provenance: whether it was synthesized, and because of which token.
A token read from source carries a location.  A synthesized one starts without
and receives one from the last pass (`TokenLayout.Pass.Locations`).
-/
import TokenLayout.Location
import TokenLayout.Tag.Nesting

namespace TokenLayout

set_option autoImplicit false

/-- Where a token came from. -/
inductive Provenance where
  /-- Read from source. -/
  | source
  /-- Inserted to open or close a structure the source left implicit. -/
  | generated
  /-- Inserted as a statement terminator the source left implicit. -/
  | explicit
  deriving DecidableEq, Inhabited

namespace Provenance

def all : List Provenance := [source, generated, explicit]

def name : Provenance → String
  | source => "source"
  | generated => "generated"
  | explicit => "explicit"

def ofName? (name : String) : Option Provenance :=
  all.find? fun p => p.name == name

end Provenance

/-- A snapshot of the token because of which another one was synthesized. -/
structure Origin where
  tag : Tag
  value : String
  location : Option Location
  deriving DecidableEq

/-- A token. -/
structure Token where
  tag : Tag
  value : String
  location : Option Location := none
  provenance : Provenance := .source
  origin : Option Origin := none
  /-- A block opener synthesized for a `then` clause. -/
  fromThen : Bool := false
  deriving DecidableEq

/-- A token stream. -/
abbrev Tokens := List Token

namespace Token

/-- A source token that carries its tag's default text. -/
def bare (tag : Tag) : Token :=
  ⟨tag, tag.defaultText, none, .source, none, false⟩

instance : Inhabited Token := ⟨bare default⟩

/-- What another token remembers of this one. -/
def snapshot (t : Token) : Origin :=
  ⟨t.tag, t.value, t.location⟩

/-- A token inserted to open or close an implicit structure, caused by `cause`. -/
def generated (tag : Tag) (cause : Token) : Token :=
  { bare tag with provenance := .generated, origin := some cause.snapshot }

/-- A token the source left implicit, caused by `cause`. -/
def explicit (tag : Tag) (cause : Token) : Token :=
  { bare tag with provenance := .explicit, origin := some cause.snapshot }

/-- The same token under another tag. -/
def retag (t : Token) (tag : Tag) : Token :=
  { t with tag := tag }

@[simp] theorem bare_tag (tag : Tag) : (bare tag).tag = tag := rfl

@[simp] theorem generated_tag (tag : Tag) (cause : Token) : (generated tag cause).tag = tag := rfl

@[simp] theorem explicit_tag (tag : Tag) (cause : Token) : (explicit tag cause).tag = tag := rfl

@[simp] theorem retag_tag (t : Token) (tag : Tag) : (t.retag tag).tag = tag := rfl

@[simp] theorem retag_value (t : Token) (tag : Tag) : (t.retag tag).value = t.value := rfl

@[simp] theorem retag_provenance (t : Token) (tag : Tag) :
    (t.retag tag).provenance = t.provenance := rfl

@[simp] theorem retag_location (t : Token) (tag : Tag) :
    (t.retag tag).location = t.location := rfl

@[simp] theorem retag_origin (t : Token) (tag : Tag) : (t.retag tag).origin = t.origin := rfl

@[simp] theorem retag_fromThen (t : Token) (tag : Tag) :
    (t.retag tag).fromThen = t.fromThen := rfl

@[simp] theorem retag_retag (t : Token) (tag again : Tag) :
    (t.retag tag).retag again = t.retag again := rfl

/-- The same token at another location. -/
def locate (t : Token) (location : Location) : Token :=
  { t with location := some location }

def isGenerated (t : Token) : Bool :=
  t.provenance == .generated

/-- Generated or explicit: not read from source. -/
def isSynthesized (t : Token) : Bool :=
  t.provenance != .source

/-- Where the token is reported: its location, or the start of the source. -/
def reportedAt (t : Token) : Location :=
  t.location.getD Location.zero

/-- A source token with its tag's default text at column `column` of line 0. -/
def onFirstLine (tag : Tag) (column : Nat) : Token :=
  (bare tag).locate (Location.point ⟨0, column⟩)

/-- A source token with the text `value` at column `column` of line 0. -/
def onFirstLineAs (tag : Tag) (value : String) (column : Nat) : Token :=
  { onFirstLine tag column with value := value }

/-- Agreement in everything the notation writes down. -/
def sameEntry (t u : Token) : Bool :=
  t.tag == u.tag && t.value == u.value && t.provenance == u.provenance && t.fromThen == u.fromThen

theorem sameEntry_iff {t u : Token} : t.sameEntry u = true ↔
    t.tag = u.tag ∧ t.value = u.value ∧ t.provenance = u.provenance ∧ t.fromThen = u.fromThen := by
  simp [sameEntry, and_assoc]

end Token

end TokenLayout
