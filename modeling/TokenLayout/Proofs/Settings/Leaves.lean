/-
# TokenLayout.Proofs.Settings.Leaves -- what a tree holds for a setting

Each of the five settings is a leaf of the tree: a key in the table of its group.  A
tree is `Grouped` where what it holds for a group is a table, and stays so under an
override of a setting.  Such an override changes what the tree holds for that setting,
and for no other (`held?_setAt_path_same`, `held?_setAt_path_other`).

No setting is read from a list, so lists are compared by their shell only.  The settings
of a grouped tree are read leaf by leaf: each one is what the value held for it stands for
(`settings?_eq_some_iff`).
-/
import TokenLayout.Proofs.Settings.Conversions
import TokenLayout.Proofs.Settings.Spelling

namespace TokenLayout.Settings

set_option autoImplicit false

open Keyed (put lookup_put_same lookup_put_other)

/-- One of the settings. -/
inductive Leaf where
  | verifyBalance
  | stopAfter
  | format
  | showLocations
  | filter
  deriving DecidableEq

namespace Leaf

/-- The key of the table it is in. -/
def group : Leaf → String
  | verifyBalance | stopAfter => "rewrite"
  | format | showLocations => "output"
  | filter => "logging"

/-- Its key in that table. -/
def key : Leaf → String
  | verifyBalance => "verify_balance"
  | stopAfter => "stop_after"
  | format => "format"
  | showLocations => "show_locations"
  | filter => "filter"

def path (leaf : Leaf) : KeyPath :=
  [.key leaf.group, .key leaf.key]

/-- The text that spells its place. -/
def name : Leaf → String
  | verifyBalance => "rewrite.verify_balance"
  | stopAfter => "rewrite.stop_after"
  | format => "output.format"
  | showLocations => "output.show_locations"
  | filter => "logging.filter"

/-- The value it has where no layer gives it one. -/
def default : Leaf → Value
  | verifyBalance => .boolean true
  | stopAfter => .nothing
  | format => .text "notation"
  | showLocations => .boolean false
  | filter => .text "warn"

/-- The setting is what the value stands for. -/
def Reads (s : Settings) : Leaf → Value → Prop
  | verifyBalance, v => v.IsTruth s.verifyBalance
  | stopAfter, v => v.IsOptionalText s.stopAfter
  | format, v => v.IsFormat s.format
  | showLocations, v => v.IsTruth s.showLocations
  | filter, v => v.IsText s.filter

/-- The value stands for something that the setting can be. -/
def Converts (leaf : Leaf) (v : Value) : Prop :=
  ∃ s, Reads s leaf v

@[simp] theorem group_toLower (leaf : Leaf) : leaf.group.toLower = leaf.group := by
  cases leaf <;> cbv

@[simp] theorem key_toLower (leaf : Leaf) : leaf.key.toLower = leaf.key := by
  cases leaf <;> cbv

theorem group_chars (leaf : Leaf) : ∀ c ∈ leaf.group.toList, KeyPath.isKeyChar c = true := by
  rw [← List.all_eq_true]
  cases leaf <;> decide

theorem key_chars (leaf : Leaf) : ∀ c ∈ leaf.key.toList, KeyPath.isKeyChar c = true := by
  rw [← List.all_eq_true]
  cases leaf <;> decide

/-- All of the settings. -/
theorem forall_iff {P : Leaf → Prop} : (∀ leaf, P leaf) ↔
    P verifyBalance ∧ P stopAfter ∧ P format ∧ P showLocations ∧ P filter := by
  constructor
  · exact fun all => ⟨all _, all _, all _, all _, all _⟩
  · rintro ⟨verifies, stops, formats, shows, filters⟩ leaf
    cases leaf <;> assumption

/-- Leaves are told apart by their places. -/
theorem eq_of_place {leaf leaf' : Leaf} (group : leaf.group = leaf'.group)
    (key : leaf.key = leaf'.key) : leaf = leaf' := by
  cases leaf <;> cases leaf' <;> first | rfl | (revert group key; decide)

theorem path_inj {leaf leaf' : Leaf} (same : leaf.path = leaf'.path) : leaf = leaf' := by
  obtain ⟨group, key⟩ : leaf.group = leaf'.group ∧ leaf.key = leaf'.key := by
    simpa [path] using same
  exact eq_of_place group key

theorem name_eq (leaf : Leaf) : leaf.name = leaf.group ++ "." ++ leaf.key := by
  cases leaf <;> rfl

/-- The name of a setting spells its place, in any case. -/
theorem ofText?_of_toLower {leaf : Leaf} {key : String} (small : key.toLower = leaf.name) :
    KeyPath.ofText? key = some leaf.path := by
  have group_ne : leaf.group ≠ "" := by cases leaf <;> decide
  have key_ne : leaf.key ≠ "" := by cases leaf <;> decide
  exact Settings.ofText?_of_toLower group_ne key_ne leaf.group_chars leaf.key_chars
    (small.trans leaf.name_eq)

@[simp] theorem name_toLower (leaf : Leaf) : leaf.name.toLower = leaf.name := by
  cases leaf <;> cbv

theorem name_inj {leaf leaf' : Leaf} (same : leaf.name = leaf'.name) : leaf = leaf' := by
  cases leaf <;> cases leaf' <;> first | rfl | (revert same; decide)

/-- There are settings just if each value stands for one. -/
theorem exists_reads_iff (value : Leaf → Value) :
    (∃ s, ∀ leaf, Reads s leaf (value leaf)) ↔ ∀ leaf, Converts leaf (value leaf) := by
  constructor
  · exact fun ⟨s, reads⟩ leaf => ⟨s, reads leaf⟩
  · intro all
    obtain ⟨⟨verify, verifies⟩, ⟨stop, stops⟩, ⟨form, formats⟩, ⟨showing, shows⟩,
      ⟨log, filters⟩⟩ := forall_iff.1 all
    exact ⟨⟨verify.verifyBalance, stop.stopAfter, form.format, showing.showLocations, log.filter⟩,
      forall_iff.2 ⟨verifies, stops, formats, shows, filters⟩⟩

end Leaf

namespace Value

/-! ## Keys of a table -/

/-- The value is a table. -/
def IsTable (v : Value) : Prop :=
  ∃ es, v = .table es

/-- What a value becomes when it is set where another one may be held. -/
def onto (held : Option Value) : Value → Value
  | .table es => (held.getD (.table [])).setAll es
  | v => v

theorem set_eq (root : Value) (key : String) (v : Value) :
    root.set key v = .table (put key.toLower (v.onto (root.get? key.toLower)) root.entries) := by
  cases v <;> rfl

theorem onto_of_not_table {v : Value} (leaf : ¬v.IsTable) (held : Option Value) :
    v.onto held = v := by
  cases v with
  | table es => exact absurd ⟨es, rfl⟩ leaf
  | _ => rfl

theorem get?_put_same (key : String) (v : Value) (es : List (String × Value)) :
    (Value.table (put key v es)).get? key = some v :=
  lookup_put_same key v es

theorem get?_put_other {key other : String} (different : other ≠ key) (v root : Value) :
    (Value.table (put key v root.entries)).get? other = root.get? other :=
  lookup_put_other different v root.entries

theorem isTable_set (root : Value) (key : String) (v : Value) : (root.set key v).IsTable :=
  ⟨_, set_eq root key v⟩

theorem isTable_setAll {root : Value} (table : root.IsTable) (es : List (String × Value)) :
    (root.setAll es).IsTable := by
  induction es generalizing root with
  | nil => exact table
  | cons e rest ih => exact ih (isTable_set root e.1 e.2)

/-! ## Paths -/

/-- The key that a path leads to first.  A path of one key is spelled in any case. -/
def firstKey (key : String) (rest : KeyPath) : String :=
  if rest.isEmpty then key.toLower else key

theorem exists_setAt_key (v root : Value) (key : String) (rest : KeyPath) : ∃ w,
    setAt v root (.key key :: rest) = .table (put (firstKey key rest) w root.entries) := by
  cases rest with
  | nil => exact ⟨_, set_eq root key v⟩
  | cons step more => exact ⟨_, rfl⟩

theorem isTable_setAt_key (v root : Value) (key : String) (rest : KeyPath) :
    (setAt v root (.key key :: rest)).IsTable := by
  obtain ⟨w, set⟩ := exists_setAt_key v root key rest
  exact ⟨_, set⟩

theorem get?_setAt_other {key other : String} {rest : KeyPath}
    (different : other ≠ firstKey key rest) (v root : Value) :
    (setAt v root (.key key :: rest)).get? other = root.get? other := by
  obtain ⟨w, set⟩ := exists_setAt_key v root key rest
  rw [set, get?_put_other different]

/-! ## Groups and settings -/

/-- A value, and of a list its shell only. -/
def shell : Value → Value
  | .list _ => .list []
  | v => v

/-- What the tree holds for a setting. -/
def held? (root : Value) (leaf : Leaf) : Option Value :=
  (root.get? leaf.group).bind (·.get? leaf.key)

/-- The same, but for the items of a list. -/
def shown? (root : Value) (leaf : Leaf) : Option Value :=
  (root.held? leaf).map shell

/-- A table that holds tables only for the groups. -/
structure Grouped (root : Value) : Prop where
  table : root.IsTable
  groups : ∀ (leaf : Leaf) (g : Value), root.get? leaf.group = some g → g.IsTable

/-! ## The place of a setting -/

theorem setAt_path (v root : Value) (leaf : Leaf) : setAt v root leaf.path =
    .table (put leaf.group (((root.get? leaf.group).getD .nothing).set leaf.key v)
      root.entries) :=
  rfl

theorem Grouped.setAt_path {root : Value} (grouped : root.Grouped) (v : Value) (leaf : Leaf) :
    (setAt v root leaf.path).Grouped := by
  refine ⟨isTable_setAt_key v root _ _, fun leaf' g held => ?_⟩
  rw [Value.setAt_path] at held
  by_cases same : leaf'.group = leaf.group
  · rw [same, get?_put_same] at held
    obtain rfl := Option.some.inj held
    exact isTable_set _ leaf.key v
  · rw [get?_put_other same] at held
    exact grouped.groups leaf' g held

theorem held?_setAt_path_same {v : Value} (scalar : ¬v.IsTable) (root : Value) (leaf : Leaf) :
    (setAt v root leaf.path).held? leaf = some v := by
  rw [setAt_path, held?, get?_put_same, Option.bind_some, set_eq, leaf.key_toLower, get?_put_same,
    onto_of_not_table scalar]

theorem held?_setAt_path_other {leaf leaf' : Leaf} (different : leaf' ≠ leaf) (v root : Value) :
    (setAt v root leaf.path).held? leaf' = root.held? leaf' := by
  rw [setAt_path, held?, held?]
  by_cases group : leaf'.group = leaf.group
  · have key : leaf'.key ≠ leaf.key := fun key => different (Leaf.eq_of_place group key)
    rw [group, get?_put_same, Option.bind_some, set_eq, leaf.key_toLower, get?_put_other key]
    cases root.get? leaf.group <;> rfl
  · rw [get?_put_other group]

/-! ## Reading the tree -/

/-- No setting is read from a list. -/
theorem reads_shell {s : Settings} {leaf : Leaf} {v : Value} :
    leaf.Reads s v.shell ↔ leaf.Reads s v := by
  cases leaf <;>
    simp only [Leaf.Reads, ← truth?_eq_some_iff, ← optionalText?_eq_some_iff,
      ← format?_eq_some_iff, ← text?_eq_some_iff] <;>
    cases v <;> rfl

/-- Every setting that has to be there is. -/
def Full (root : Value) : Prop :=
  ∀ leaf : Leaf, leaf ≠ .stopAfter → ∃ v, root.held? leaf = some v

/-- The table of a group that holds something. -/
theorem Grouped.exists_group {root : Value} (grouped : root.Grouped) {leaf : Leaf} {v : Value}
    (held : root.held? leaf = some v) :
    ∃ es, root.get? leaf.group = some (.table es) ∧ es.lookup leaf.key = some v := by
  obtain ⟨g, group, there⟩ := Option.bind_eq_some_iff.1 held
  obtain ⟨es, rfl⟩ := grouped.groups leaf g group
  exact ⟨es, group, there⟩

/-- Settings are there when each of them is. -/
theorem some_settings_iff (verifies : Option Bool) (stops : Option (Option String))
    (form : Option OutputFormat) (shows : Option Bool) (logs : Option String) {s : Settings} :
    (stops.bind fun stopAfter => verifies.bind fun verifyBalance => form.bind fun format =>
        shows.bind fun showLocations => logs.bind fun filter =>
          some (Settings.mk verifyBalance stopAfter format showLocations filter)) = some s ↔
      verifies = some s.verifyBalance ∧ stops = some s.stopAfter ∧ form = some s.format ∧
        shows = some s.showLocations ∧ logs = some s.filter := by
  constructor
  · intro there
    obtain ⟨stop, hasStop, there⟩ := Option.bind_eq_some_iff.1 there
    obtain ⟨verify, hasVerify, there⟩ := Option.bind_eq_some_iff.1 there
    obtain ⟨format, hasFormat, there⟩ := Option.bind_eq_some_iff.1 there
    obtain ⟨show_, hasShow, there⟩ := Option.bind_eq_some_iff.1 there
    obtain ⟨filter, hasFilter, there⟩ := Option.bind_eq_some_iff.1 there
    obtain rfl := Option.some.inj there
    exact ⟨hasVerify, hasStop, hasFormat, hasShow, hasFilter⟩
  · rintro ⟨rfl, rfl, rfl, rfl, rfl⟩
    rfl

/-- **The settings of a tree are read leaf by leaf.** -/
theorem settings?_eq_some_iff {root : Value} (grouped : root.Grouped) (full : root.Full)
    {s : Settings} :
    root.settings? = some s ↔
      ∀ leaf : Leaf, leaf.Reads s ((root.held? leaf).getD leaf.default) := by
  obtain ⟨verify, verifyHeld⟩ := full .verifyBalance (by decide)
  obtain ⟨format, formatHeld⟩ := full .format (by decide)
  obtain ⟨show_, showHeld⟩ := full .showLocations (by decide)
  obtain ⟨filter, filterHeld⟩ := full .filter (by decide)
  obtain ⟨passes, rewriteGroup, verifyAt⟩ := grouped.exists_group verifyHeld
  obtain ⟨output, outputGroup, formatAt⟩ := grouped.exists_group formatHeld
  obtain ⟨output', outputGroup', showAt⟩ := grouped.exists_group showHeld
  obtain ⟨logging, loggingGroup, filterAt⟩ := grouped.exists_group filterHeld
  have one : output' = output := by
    have both := outputGroup'.symm.trans outputGroup
    exact Value.table.inj (Option.some.inj both)
  subst one
  have stopHeld : root.held? .stopAfter = passes.lookup "stop_after" :=
    congrArg (Option.bind · _) rewriteGroup
  obtain ⟨es, rfl⟩ := grouped.table
  change es.lookup "rewrite" = _ at rewriteGroup
  change es.lookup "output" = _ at outputGroup
  change es.lookup "logging" = _ at loggingGroup
  change passes.lookup "verify_balance" = _ at verifyAt
  change output'.lookup "format" = _ at formatAt
  change output'.lookup "show_locations" = _ at showAt
  change logging.lookup "filter" = _ at filterAt
  rw [Leaf.forall_iff, verifyHeld, stopHeld, formatHeld, showHeld, filterHeld]
  simp only [settings?, setting?, rewriteGroup, outputGroup, loggingGroup, Option.bind_eq_bind,
    Option.bind_some, verifyAt, formatAt, showAt, filterAt, Leaf.Reads, Option.getD_some,
    Leaf.default, ← truth?_eq_some_iff, ← optionalText?_eq_some_iff, ← format?_eq_some_iff,
    ← text?_eq_some_iff]
  cases passes.lookup "stop_after" with
  | none =>
      exact some_settings_iff verify.truth? (some none) format.format? show_.truth? filter.text?
  | some stop =>
      exact some_settings_iff verify.truth? stop.optionalText? format.format? show_.truth?
        filter.text?

end Value

end TokenLayout.Settings
