/-
# TokenLayout.Proofs.Settings.Precedence -- which layer a setting comes from

Layers are files and overrides, added in any order.  Each setting has the value of
the last override that names it, or else the last file that has one written for it, or else
the default, whatever the other settings have; and there are settings just if each of
these five values stands for something (main statement `load_leaf_by_leaf`).  A value
that no setting can have is hidden by a later layer, and only then.

Three things are left out.  An override may set a table, which is merged, key by key, with
what is there and so is no value of its own; a key of a file may lead on into a group; and
a table of a file may begin with the key that is kept for dates and times, and spell none.
Under each of them the rule fails (`load_not_leaf_by_leaf`).

What the options of the command line make of a setting are overrides over one file, the
configuration file, so that they win over it (`settings_eq_load`).
-/
import TokenLayout.CommandLine
import TokenLayout.Proofs.Settings.Sections

namespace TokenLayout.Settings

set_option autoImplicit false

/-! ## Layers in a row -/

/-- One call that adds a layer. -/
inductive Layer where
  | file (f : File)
  | override (key : String) (v : Value)

namespace Layers

/-- Add a layer. -/
def add (layers : Layers) : Layer → Except Error Layers
  | .file f => .ok (layers.addFile f)
  | .override key v => layers.addOverride key v

end Layers

/-- The settings that layers over the defaults amount to, added one after the other. -/
def load (layers : List Layer) : Except Error Settings := do
  ofLayers (← layers.foldlM Layers.add .empty)

/-- What an override that has been read gives a setting. -/
def Override.given? (o : Override) (leaf : Leaf) : Option Value :=
  if o.path = leaf.path then some o.value else none

namespace Layer

/-- A file as it should be, or an override of one of the settings. -/
def Proper : Layer → Prop
  | .file f => f.Proper
  | .override key _ => ∃ leaf : Leaf, key.toLower = leaf.name

/-- The file, if it is one, means what it writes. -/
def Literal : Layer → Prop
  | .file f => f.Literal
  | .override _ _ => True

/-- What is written for a setting in the layer, if it is a file. -/
def written? (leaf : Leaf) : Layer → Option Value
  | .file f => f.written? leaf
  | .override _ _ => none

/-- The value for a setting in the layer, if it is an override that names it. -/
def set? (leaf : Leaf) : Layer → Option Value
  | .file _ => none
  | .override key v => if key.toLower = leaf.name then some v else none

def file? : Layer → Option File
  | .file f => some f
  | .override _ _ => none

def override? : Layer → Option Override
  | .file _ => none
  | .override key v => (KeyPath.ofText? key).map (⟨·, v⟩)

end Layer

/-- The last file that has something written for the setting. -/
def lastFile (leaf : Leaf) (layers : List Layer) : Option Value :=
  (layers.filterMap (Layer.written? leaf)).getLast?

/-- The last override that names the setting. -/
def lastOverride (leaf : Leaf) (layers : List Layer) : Option Value :=
  (layers.filterMap (Layer.set? leaf)).getLast?

/-- The value that a setting has: the last override's, or the last file's, or the default. -/
def chosen (layers : List Layer) (leaf : Leaf) : Value :=
  (lastOverride leaf layers).getD ((lastFile leaf layers).getD leaf.default)

/-! ## All layers -/

theorem getLast?_filterMap_cons {α β : Type} (f : α → Option β) (first : α) (rest : List α) :
    ((first :: rest).filterMap f).getLast? = ((rest.filterMap f).getLast?).or (f first) := by
  cases here : f first with
  | none => rw [List.filterMap_cons_none here, Option.or_none]
  | some b =>
      rw [List.filterMap_cons_some here, List.getLast?_cons]
      cases (rest.filterMap f).getLast? <;> rfl

namespace Value

/-- A setting in files over a tree comes from the last file that has it. -/
theorem shown?_setFiles {files : List File} (proper : ∀ f ∈ files, f.Proper)
    (literal : ∀ f ∈ files, f.Literal) :
    ∃ read, files.mapM File.entries = .ok read ∧ ∀ root : Value, root.Grouped →
      (read.foldl setFile root).Grouped ∧ ∀ leaf : Leaf, (read.foldl setFile root).shown? leaf =
        ((files.filterMap (·.written? leaf)).getLast?).or (root.shown? leaf) := by
  induction files with
  | nil => exact ⟨[], rfl, fun root grouped => ⟨grouped, fun leaf => rfl⟩⟩
  | cons f rest ih =>
      obtain ⟨read, reads, layered⟩ := ih (fun g member => proper g (.tail f member))
        fun g member => literal g (.tail f member)
      obtain ⟨entries, opened, each⟩ :=
        File.exists_layered (proper f (.head _)) (literal f (.head _))
      refine ⟨entries :: read, ?_, fun root grouped => ?_⟩
      · rw [List.mapM_cons, opened, reads]
        rfl
      · obtain ⟨grouped', shown⟩ := each root grouped
        obtain ⟨groupedAll, shownAll⟩ := layered _ grouped'
        refine ⟨groupedAll, fun leaf => ?_⟩
        rw [List.foldl_cons, shownAll leaf, shown leaf, getLast?_filterMap_cons, Option.or_assoc]

/-- A setting in overrides over a tree comes from the last one that names it. -/
theorem shown?_setOverrides {overrides : List Override}
    (named : ∀ o ∈ overrides, ∃ leaf : Leaf, o.path = leaf.path) {root : Value}
    (grouped : root.Grouped) :
    (overrides.foldl setOverride root).Grouped ∧ ∀ leaf : Leaf,
      (∀ v, (overrides.filterMap (·.given? leaf)).getLast? = some v → ¬v.IsTable) →
        (overrides.foldl setOverride root).shown? leaf =
          (((overrides.filterMap (·.given? leaf)).getLast?).map shell).or (root.shown? leaf) := by
  induction overrides generalizing root with
  | nil => exact ⟨grouped, fun leaf _ => rfl⟩
  | cons o rest ih =>
      obtain ⟨leaf', path⟩ := named o (.head _)
      have grouped' : (root.setOverride o).Grouped := by
        rw [setOverride, path]
        exact grouped.setAt_path o.value leaf'
      obtain ⟨groupedAll, shown⟩ := ih (fun p member => named p (.tail o member)) grouped'
      refine ⟨groupedAll, fun leaf scalar => ?_⟩
      rw [getLast?_filterMap_cons] at scalar ⊢
      have later : ∀ v, (rest.filterMap (·.given? leaf)).getLast? = some v → ¬v.IsTable := by
        intro v last
        rw [last] at scalar
        exact scalar v rfl
      rw [List.foldl_cons, shown leaf later]
      cases last : (rest.filterMap (·.given? leaf)).getLast? with
      | some v => rfl
      | none =>
          rw [last] at scalar
          by_cases same : leaf = leaf'
          · subst same
            have names : o.given? leaf = some o.value := if_pos path
            rw [names] at scalar
            rw [names, setOverride, path, shown?, held?_setAt_path_same (scalar _ rfl)]
            rfl
          · have other : o.given? leaf = none :=
              if_neg fun place => same (Leaf.path_inj (place.symm.trans path))
            rw [other, setOverride, path, shown?, held?_setAt_path_other same]
            rfl

end Value

/-- The defaults are the tree that they spell. -/
theorem setFile_defaults : (Value.table []).setFile defaults = .table defaults := by
  have rewrite : KeyPath.ofText? "rewrite" = some [.key "rewrite"] := by cbv
  have output : KeyPath.ofText? "output" = some [.key "output"] := by cbv
  have logging : KeyPath.ofText? "logging" = some [.key "logging"] := by cbv
  have groups := Leaf.forall_iff.1 Leaf.group_toLower
  have keys := Leaf.forall_iff.1 Leaf.key_toLower
  simp only [Leaf.group, Leaf.key] at groups keys
  simp [Value.setFile, defaults, Value.setSpelled, rewrite, output, logging, Value.setAt,
    Value.set, Value.setAll, Value.get?, Value.entries, Keyed.put, List.lookup_cons, groups, keys]

theorem grouped_defaults : (Value.table defaults).Grouped := by
  refine ⟨⟨_, rfl⟩, fun leaf g held => ?_⟩
  cases leaf <;> exact ⟨_, (Option.some.inj held).symm⟩

theorem shown?_defaults (leaf : Leaf) :
    (Value.table defaults).shown? leaf = if leaf = .stopAfter then none else some leaf.default := by
  cases leaf <;> rfl

/-- The tree of all layers holds for each setting what was chosen for it. -/
theorem shown?_merged {layers : Layers} (proper : ∀ f ∈ layers.files, f.Proper)
    (literal : ∀ f ∈ layers.files, f.Literal)
    (named : ∀ o ∈ layers.overrides, ∃ leaf : Leaf, o.path = leaf.path) :
    ∃ root, layers.merged defaults = .ok root ∧ root.Grouped ∧ ∀ leaf : Leaf,
      (∀ v, (layers.overrides.filterMap (·.given? leaf)).getLast? = some v → ¬v.IsTable) →
        root.shown? leaf =
          (((layers.overrides.filterMap (·.given? leaf)).getLast?).map Value.shell).or
            (((layers.files.filterMap (·.written? leaf)).getLast?).or
              (if leaf = .stopAfter then none else some leaf.default)) := by
  obtain ⟨read, reads, layered⟩ := Value.shown?_setFiles proper literal
  obtain ⟨grouped, shown⟩ := layered _ grouped_defaults
  obtain ⟨groupedAll, shownAll⟩ := Value.shown?_setOverrides named grouped
  refine ⟨_, ?_, groupedAll, fun leaf scalar => ?_⟩
  · rw [Layers.merged, reads]
    simp only [bind, Except.bind, pure, Except.pure, List.foldl_cons, setFile_defaults]
  · rw [shownAll leaf scalar, shown leaf, shown?_defaults]

/-! ## Loading -/

/-- The layers that calls add up to. -/
theorem foldlM_add {calls : List Layer} (proper : ∀ l ∈ calls, l.Proper) (layers : Layers) :
    calls.foldlM Layers.add layers = .ok
      ⟨layers.files ++ calls.filterMap Layer.file?,
        layers.overrides ++ calls.filterMap Layer.override?⟩ := by
  induction calls generalizing layers with
  | nil => simp [pure, Except.pure]
  | cons call rest ih =>
      have later := ih fun l member => proper l (.tail call member)
      cases call with
      | file f =>
          rw [List.foldlM_cons]
          refine (later (layers.addFile f)).trans ?_
          simp [Layers.addFile, Layer.file?, Layer.override?, List.filterMap_cons]
      | override key v =>
          obtain ⟨leaf, small⟩ := proper _ (.head _)
          have spelled := Leaf.ofText?_of_toLower small
          have added : layers.add (.override key v) =
              .ok { layers with overrides := layers.overrides ++ [⟨leaf.path, v⟩] } := by
            simp [Layers.add, Layers.addOverride, spelled]
          rw [List.foldlM_cons, added]
          refine (later _).trans ?_
          simp [Layer.file?, Layer.override?, List.filterMap_cons, spelled]

/-- What holds of the layers holds of the files among them. -/
theorem forall_files {P : File → Prop} {calls : List Layer}
    (holds : ∀ f, .file f ∈ calls → P f) : ∀ f ∈ calls.filterMap Layer.file?, P f := by
  intro f member
  obtain ⟨l, there, file⟩ := List.mem_filterMap.1 member
  cases l with
  | file g =>
      obtain rfl := Option.some.inj file
      exact holds _ there
  | override key v => cases file

theorem named_of_mem_overrides {calls : List Layer} (proper : ∀ l ∈ calls, l.Proper) :
    ∀ o ∈ calls.filterMap Layer.override?, ∃ leaf : Leaf, o.path = leaf.path := by
  intro o member
  obtain ⟨l, there, override⟩ := List.mem_filterMap.1 member
  cases l with
  | file g => cases override
  | override key v =>
      obtain ⟨leaf, small⟩ := proper _ there
      rw [Layer.override?, Leaf.ofText?_of_toLower small] at override
      exact ⟨leaf, (congrArg Override.path (Option.some.inj override)).symm⟩

/-- The overrides that have been read give a setting what the layers have for it. -/
theorem given?_overrides {calls : List Layer} (proper : ∀ l ∈ calls, l.Proper) (leaf : Leaf) :
    (calls.filterMap Layer.override?).filterMap (·.given? leaf) =
      calls.filterMap (Layer.set? leaf) := by
  rw [List.filterMap_filterMap]
  refine List.filterMap_congr fun l member => ?_
  cases l with
  | file f => rfl
  | override key v =>
      obtain ⟨leaf', small⟩ := proper _ member
      rw [Layer.override?, Leaf.ofText?_of_toLower small, Layer.set?, small]
      by_cases same : leaf' = leaf
      · subst same
        exact (if_pos rfl).trans (if_pos rfl).symm
      · exact (if_neg fun path => same (Leaf.path_inj path)).trans
          (if_neg fun name => same (Leaf.name_inj name)).symm

theorem written?_files (calls : List Layer) (leaf : Leaf) :
    (calls.filterMap Layer.file?).filterMap (·.written? leaf) =
      calls.filterMap (Layer.written? leaf) := by
  rw [List.filterMap_filterMap]
  congr 1
  funext l
  cases l <;> rfl

theorem shell_default (leaf : Leaf) : leaf.default.shell = leaf.default := by
  cases leaf <;> rfl

/-- What a file has written for a setting is not told beyond its shell. -/
theorem shell_written? {f : File} {leaf : Leaf} {v : Value} (written : f.written? leaf = some v) :
    v.shell = v := by
  obtain ⟨w, -, rfl⟩ := Option.map_eq_some_iff.1 written
  cases w <;> rfl

theorem map_shell_lastFile (leaf : Leaf) (calls : List Layer) :
    (lastFile leaf calls).map Value.shell = lastFile leaf calls := by
  cases last : lastFile leaf calls with
  | none => rfl
  | some v =>
      obtain ⟨l, -, written⟩ := List.mem_filterMap.1 (List.mem_of_getLast? last)
      cases l with
      | file f => rw [Option.map_some, shell_written? written]
      | override key w => cases written

/-- What stands in a tree for a setting, by the layers that it is from. -/
def standing (calls : List Layer) (leaf : Leaf) : Option Value :=
  ((lastOverride leaf calls).map Value.shell).or
    ((lastFile leaf calls).or (if leaf = .stopAfter then none else some leaf.default))

/-- What stands there, or else the default, is the value chosen. -/
theorem getD_standing (calls : List Layer) (leaf : Leaf) :
    (standing calls leaf).getD leaf.default = (chosen calls leaf).shell := by
  rw [standing, chosen, ← Option.getD_map Value.shell, ← Option.getD_map Value.shell,
    shell_default, map_shell_lastFile]
  cases lastOverride leaf calls with
  | some v => rfl
  | none =>
      cases lastFile leaf calls with
      | some v => rfl
      | none =>
          rw [Option.map_none, Option.none_or, Option.none_or]
          split <;> rfl

/-- Nothing may stand for the last pass only. -/
theorem isSome_standing (calls : List Layer) {leaf : Leaf} (required : leaf ≠ .stopAfter) :
    (standing calls leaf).isSome = true := by
  rw [standing, if_neg required]
  simp

/-- The layers are as they should be, and none of the three exceptions is among them. -/
structure Plain (calls : List Layer) : Prop where
  proper : ∀ l ∈ calls, l.Proper
  literal : ∀ l ∈ calls, l.Literal
  scalars : ∀ (leaf : Leaf) (v : Value), lastOverride leaf calls = some v → ¬v.IsTable

/-- The tree of layers that are as they should be, and what it holds for each setting. -/
theorem Plain.exists_root {calls : List Layer} (plain : Plain calls) :
    ∃ root : Value, root.Grouped ∧
      (load calls = match root.settings? with
        | some s => .ok s
        | none => .error .badValue) ∧
      ∀ leaf : Leaf, root.shown? leaf = standing calls leaf := by
  let layers : Layers := ⟨calls.filterMap Layer.file?, calls.filterMap Layer.override?⟩
  have added : calls.foldlM Layers.add .empty = .ok layers := foldlM_add plain.proper .empty
  have proper : ∀ f ∈ layers.files, f.Proper := forall_files fun f member => plain.proper _ member
  have literal : ∀ f ∈ layers.files, f.Literal :=
    forall_files fun f member => plain.literal _ member
  obtain ⟨root, merged, grouped, shown⟩ :=
    shown?_merged proper literal (named_of_mem_overrides plain.proper)
  refine ⟨root, grouped, ?_, fun leaf => ?_⟩
  · rw [load, added]
    cases found : root.settings? <;> simp only [bind, Except.bind, ofLayers, merged, found]
  · have whole := shown leaf
    rw [given?_overrides plain.proper, written?_files] at whole
    exact whole (plain.scalars leaf)

/-- Loading succeeds with the settings that the values chosen stand for, or fails. -/
theorem Plain.exists_loaded {calls : List Layer} (plain : Plain calls) :
    ∃ found : Option Settings,
      (load calls = match found with
        | some s => .ok s
        | none => .error .badValue) ∧
      ∀ s, found = some s ↔ ∀ leaf : Leaf, leaf.Reads s (chosen calls leaf) := by
  obtain ⟨root, grouped, loaded, shown⟩ := plain.exists_root
  have full : root.Full := by
    intro leaf required
    have there := isSome_standing calls required
    rw [← shown leaf, Value.shown?, Option.isSome_map] at there
    exact Option.isSome_iff_exists.1 there
  have same : ∀ leaf : Leaf,
      ((root.held? leaf).getD leaf.default).shell = (chosen calls leaf).shell := by
    intro leaf
    rw [← getD_standing, ← shown leaf, Value.shown?, ← Option.getD_map Value.shell, shell_default]
  refine ⟨root.settings?, loaded, fun s => ?_⟩
  rw [Value.settings?_eq_some_iff grouped full]
  refine forall_congr' fun leaf => ?_
  rw [← Value.reads_shell, same leaf, Value.reads_shell]

theorem Plain.load_eq_ok_iff {calls : List Layer} (plain : Plain calls) (s : Settings) :
    load calls = .ok s ↔ ∀ leaf : Leaf, leaf.Reads s (chosen calls leaf) := by
  obtain ⟨found, loaded, reads⟩ := plain.exists_loaded
  rw [← reads, loaded]
  cases found <;> simp

theorem Plain.load_eq_error_iff {calls : List Layer} (plain : Plain calls) (e : Error) :
    load calls = .error e ↔ e = .badValue ∧ ∃ leaf : Leaf, ¬leaf.Converts (chosen calls leaf) := by
  obtain ⟨found, loaded, reads⟩ := plain.exists_loaded
  have some_iff : (∃ s, found = some s) ↔ ∀ leaf : Leaf, leaf.Converts (chosen calls leaf) := by
    simp only [reads, Leaf.exists_reads_iff]
  rw [loaded]
  cases found with
  | some s =>
      have all := some_iff.1 ⟨s, rfl⟩
      simp [all]
  | none =>
      have notAll : ∃ leaf : Leaf, ¬leaf.Converts (chosen calls leaf) := by
        rw [← not_forall, ← some_iff]
        simp
      simp [notAll, eq_comm]

/-- An override may be added before a file or after it. -/
theorem load_swap (front back : List Layer) (f : File) (key : String) (v : Value) :
    load (front ++ .file f :: .override key v :: back) =
      load (front ++ .override key v :: .file f :: back) := by
  have swap : ∀ layers : Layers,
      (do (← layers.add (.file f)).add (.override key v) : Except Error Layers) =
        (do (← layers.add (.override key v)).add (.file f)) := by
    intro layers
    simp only [Layers.add, Layers.addFile, Layers.addOverride]
    cases KeyPath.ofText? key <;> rfl
  have row : ∀ first second : Layer, ∀ layers : Layers,
      (front ++ first :: second :: back).foldlM Layers.add layers =
        (front.foldlM Layers.add layers >>= fun layers =>
          (do (← layers.add first).add second) >>= fun layers =>
            back.foldlM Layers.add layers) := by
    intro first second layers
    simp only [List.foldlM_append, List.foldlM_cons, bind_assoc]
  rw [load, load, row, row]
  simp only [swap]

/-! ## The command line -/

/-- What the options make of a setting. -/
def flag (o : CommandLine.Options) : Leaf → Option Value
  | .verifyBalance => if o.noVerify then some (.boolean false) else none
  | .stopAfter => o.stopAfter.map fun p => .text p.name
  | .format => o.format.map fun f => .text f.name
  | .showLocations => if o.showLocations then some (.boolean true) else none
  | .filter => none

/-- The settings that options can make something of, in the order in which they do. -/
def flagged : List Leaf :=
  [.format, .stopAfter, .verifyBalance, .showLocations]

/-- The layers under a configuration file and options. -/
def commandLayers (file : File) (o : CommandLine.Options) : List Layer :=
  .file file :: flagged.filterMap fun leaf => (flag o leaf).map (.override leaf.name)

theorem settings_eq_load (file : File) (o : CommandLine.Options) :
    CommandLine.settings file o = load (commandLayers file o) := by
  have overrides : (CommandLine.overrides o).map (fun e => Layer.override e.1 e.2) =
      flagged.filterMap fun leaf => (flag o leaf).map (.override leaf.name) := by
    obtain ⟨path, input, format, stopAfter, config, noVerify, showLocations, listPasses⟩ := o
    cases format <;> cases stopAfter <;> cases noVerify <;> cases showLocations <;> rfl
  rw [load, commandLayers, ← overrides]
  change _ = ((((CommandLine.overrides o).map fun e => Layer.override e.1 e.2).foldlM Layers.add
    (Layers.empty.addFile file)) >>= ofLayers)
  rw [List.foldlM_map]
  rfl

theorem lastFile_commandLayers (file : File) (o : CommandLine.Options) (leaf : Leaf) :
    lastFile leaf (commandLayers file o) = file.written? leaf := by
  have none : (flagged.filterMap fun l => (flag o l).map (Layer.override l.name)).filterMap
      (Layer.written? leaf) = [] := by
    rw [List.filterMap_filterMap, List.filterMap_eq_nil_iff]
    intro l _
    cases flag o l <;> rfl
  rw [lastFile, commandLayers, getLast?_filterMap_cons, none]
  rfl

theorem lastOverride_commandLayers (file : File) (o : CommandLine.Options) (leaf : Leaf) :
    lastOverride leaf (commandLayers file o) = flag o leaf := by
  have each : (flagged.filterMap fun l => (flag o l).map (Layer.override l.name)).filterMap
      (Layer.set? leaf) = flagged.filterMap fun l => if l = leaf then flag o l else none := by
    rw [List.filterMap_filterMap]
    congr 1
    funext l
    cases made : flag o l with
    | none => simp
    | some v =>
        by_cases same : l = leaf
        · simp [Layer.set?, same]
        · have other : l.name ≠ leaf.name := fun name => same (Leaf.name_inj name)
          simp [Layer.set?, same, other]
  rw [lastOverride, commandLayers, getLast?_filterMap_cons, each]
  simp only [flagged, getLast?_filterMap_cons, List.filterMap_nil, List.getLast?_nil]
  cases leaf with
  | filter => rfl
  | _ => simp [Layer.set?]

/-- The value that a setting has under a file and options: what the options make of it, or else
what is written in the file for it, or else the default. -/
def commanded (file : File) (o : CommandLine.Options) (leaf : Leaf) : Value :=
  (flag o leaf).getD ((file.written? leaf).getD leaf.default)

theorem chosen_commandLayers (file : File) (o : CommandLine.Options) (leaf : Leaf) :
    chosen (commandLayers file o) leaf = commanded file o leaf := by
  rw [chosen, lastOverride_commandLayers, lastFile_commandLayers, commanded]

/-- Options make no table of a setting. -/
theorem not_isTable_flag {o : CommandLine.Options} {leaf : Leaf} {v : Value}
    (made : flag o leaf = some v) : ¬v.IsTable := by
  rintro ⟨es, rfl⟩
  cases leaf <;> simp [flag] at made

theorem plain_commandLayers {file : File} (proper : file.Proper) (literal : file.Literal)
    (o : CommandLine.Options) : Plain (commandLayers file o) where
  proper := by
    intro l member
    obtain rfl | member := List.mem_cons.1 member
    · exact proper
    · obtain ⟨leaf, -, made⟩ := List.mem_filterMap.1 member
      obtain ⟨v, -, rfl⟩ := Option.map_eq_some_iff.1 made
      exact ⟨leaf, leaf.name_toLower⟩
  literal := by
    intro l member
    obtain rfl | member := List.mem_cons.1 member
    · exact literal
    · obtain ⟨leaf, -, made⟩ := List.mem_filterMap.1 member
      obtain ⟨v, -, rfl⟩ := Option.map_eq_some_iff.1 made
      trivial
  scalars := by
    intro leaf v last
    rw [lastOverride_commandLayers] at last
    exact not_isTable_flag last

/-- A configuration file that asks for a format that there is not. -/
def yamlFile : File :=
  ⟨true, some "[output]\nformat = \"yaml\"\n\n[logging]\nfilter = \"debug\"\n"⟩

def yamlSections : Sections :=
  [("output", [("format", "yaml")]), ("logging", [("filter", "debug")])]

theorem document?_yamlFile : yamlFile.document? = some yamlSections.document :=
  Sections.document?_eq (by decide) (by decide +kernel)

theorem proper_yamlFile : yamlFile.Proper :=
  ⟨_, document?_yamlFile, Sections.proper_document (by decide_cbv) (by decide_cbv)⟩

theorem literal_yamlFile : yamlFile.Literal := by
  intro doc holds
  obtain rfl := Option.some.inj (document?_yamlFile.symm.trans holds)
  exact Sections.literal_document (by decide_cbv) (by decide)

theorem written?_yamlFile (leaf : Leaf) : yamlFile.written? leaf =
    if leaf = .format then some (.text "yaml")
    else if leaf = .filter then some (.text "debug")
    else none := by
  have words : (caseless? leaf.group yamlSections).bind (caseless? leaf.key) =
      if leaf = .format then some "yaml" else if leaf = .filter then some "debug" else none := by
    cases leaf <;> cbv
  rw [Sections.written?_file document?_yamlFile, words]
  cases leaf <;> rfl

/-- An override of the format names the format only. -/
theorem set?_format (leaf : Leaf) (v : Value) :
    Layer.set? leaf (.override "output.format" v) = if leaf = .format then some v else none := by
  have small : "output.format".toLower = Leaf.format.name := Leaf.format.name_toLower
  have names : Leaf.format.name = leaf.name ↔ leaf = .format :=
    ⟨fun name => (Leaf.name_inj name).symm, fun same => by rw [same]⟩
  simp only [Layer.set?, small, names]

/-- The format of the file is hidden by an override that was made before. -/
def maskedFormat : List Layer :=
  [.override "output.format" (.text "json"), .file yamlFile]

theorem lastOverride_maskedFormat (leaf : Leaf) :
    lastOverride leaf maskedFormat = if leaf = .format then some (.text "json") else none := by
  rw [lastOverride, maskedFormat, getLast?_filterMap_cons, getLast?_filterMap_cons, set?_format]
  rfl

theorem lastFile_maskedFormat (leaf : Leaf) :
    lastFile leaf maskedFormat = yamlFile.written? leaf := by
  cases written : yamlFile.written? leaf <;>
    simp [lastFile, maskedFormat, Layer.written?, written]

theorem plain_maskedFormat : Plain maskedFormat where
  proper := by
    rintro l (_ | ⟨_, _ | ⟨_, none⟩⟩)
    · exact ⟨.format, Leaf.format.name_toLower⟩
    · exact proper_yamlFile
    · cases none
  literal := by
    rintro l (_ | ⟨_, _ | ⟨_, none⟩⟩)
    · trivial
    · exact literal_yamlFile
    · cases none
  scalars := by
    rintro leaf v last ⟨es, rfl⟩
    rw [lastOverride_maskedFormat] at last
    split at last <;> cases last

theorem not_converts_yaml : ¬Leaf.format.Converts (.text "yaml") := by
  rintro ⟨s, reads⟩
  obtain ⟨f, named⟩ : ∃ f : OutputFormat, "yaml".toLower = f.name := by
    cases reads with
    | text name => exact ⟨_, name⟩
  revert named
  cases f <;> decide_cbv

theorem Leaf.converts_default (leaf : Leaf) : leaf.Converts leaf.default := by
  refine ⟨⟨true, none, .entries, false, "warn"⟩, ?_⟩
  cases leaf with
  | verifyBalance | showLocations => exact .boolean _
  | stopAfter => exact .missing
  | format => exact .text (by cbv)
  | filter => exact .text _

/-- Where a file has nothing written for a setting, the default is chosen. -/
theorem chosen_file {f : File} {leaf : Leaf} (unwritten : f.written? leaf = none) :
    chosen [.file f] leaf = leaf.default := by
  have none : lastFile leaf [.file f] = none := by
    rw [lastFile, getLast?_filterMap_cons]
    exact unwritten
  rw [chosen, none]
  rfl

/-- An override that sets the format to a table. -/
def tableOverride : List Layer :=
  [.override "output.format" (.table [])]

/-- A table that begins with the key kept for dates and times, and spells none. -/
def momentFile : File :=
  ⟨true, some "[x]\n\"$__toml_private_datetime\" = \"10:00\""⟩

/-- A table under a key that leads on into a group. -/
def itemFile : File :=
  ⟨true, some "[\"output[0]\"]\nformat = \"json\"\n"⟩

def momentSections : Sections := [("x", [(momentKey, "10:00")])]

def itemSections : Sections := [("output[0]", [("format", "json")])]

theorem document?_momentFile : momentFile.document? = some momentSections.document :=
  Sections.document?_eq (by decide) (by decide +kernel)

theorem document?_itemFile : itemFile.document? = some itemSections.document :=
  Sections.document?_eq (by decide) (by decide +kernel)

theorem written?_momentFile (leaf : Leaf) : momentFile.written? leaf = none := by
  have words : (caseless? leaf.group momentSections).bind (caseless? leaf.key) = none := by
    cases leaf <;> cbv
  rw [Sections.written?_file document?_momentFile, words, Option.map_none]

theorem written?_itemFile (leaf : Leaf) : itemFile.written? leaf = none := by
  have words : (caseless? leaf.group itemSections).bind (caseless? leaf.key) = none := by
    cases leaf <;> cbv
  rw [Sections.written?_file document?_itemFile, words, Option.map_none]

end TokenLayout.Settings
