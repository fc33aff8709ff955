/-
# TokenLayout.Settings.Layers -- files and overrides over the defaults

Settings come from layers.  At the bottom are the defaults, over them files in the
order they were added, and over all of them the overrides in the order they were
made.  An override wins over every file, even over one that is added after it.

A key at the top of a file may spell a path, the way the key of an override does.
-/
import TokenLayout.Settings.Document
import TokenLayout.Settings.KeyPath

namespace TokenLayout.Settings

set_option autoImplicit false

/-- Why there are no settings. -/
inductive Error where
  /-- The key of an override spells no path. -/
  | badKey
  /-- A file that has to be there is not. -/
  | missingFile
  /-- A file is no document. -/
  | badToml
  /-- A setting is missing, or has a value it cannot have. -/
  | badValue
  deriving DecidableEq

/-- A file among the layers: its text, if there is such a file. -/
structure File where
  required : Bool
  text : Option String
  deriving DecidableEq

/-- An override of one value. -/
structure Override where
  path : KeyPath
  value : Value

/-- The layers over the defaults. -/
structure Layers where
  files : List File
  overrides : List Override

namespace File

/-- The entries of a file.  A file that may be missing has none when it is. -/
def entries (f : File) : Except Error (List (String × Value)) :=
  match f.text with
  | some text =>
      match ofDocument? text with
      | some entries => .ok entries
      | none => .error .badToml
  | none => if f.required then .error .missingFile else .ok []

end File

namespace Value

/-- Set the entries of a file. -/
def setFile (root : Value) (entries : List (String × Value)) : Value :=
  entries.foldl (fun root (key, v) => root.setSpelled key v) root

/-- Set the value of an override. -/
def setOverride (root : Value) (o : Override) : Value :=
  setAt o.value root o.path

end Value

namespace Layers

/-- Nothing over the defaults. -/
def empty : Layers := ⟨[], []⟩

/-- One more file. -/
def addFile (layers : Layers) (f : File) : Layers :=
  { layers with files := layers.files ++ [f] }

/-- One more override, by the path its key spells. -/
def addOverride (layers : Layers) (key : String) (v : Value) : Except Error Layers :=
  match KeyPath.ofText? key with
  | some path => .ok { layers with overrides := layers.overrides ++ [⟨path, v⟩] }
  | none => .error .badKey

/-- All layers in one tree. -/
def merged (layers : Layers) (defaults : List (String × Value)) : Except Error Value := do
  let files ← layers.files.mapM File.entries
  let root := (defaults :: files).foldl Value.setFile (.table [])
  return layers.overrides.foldl Value.setOverride root

end Layers

end TokenLayout.Settings
