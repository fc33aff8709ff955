/-
# TokenLayout.CommandLine -- what the program does

The program resolves the stream in a file and prints it.  Settings come from the
defaults, from the configuration file, and from the command line, which wins.  The
configuration file is the one named on the command line, which must be there, or
else one of a fixed name, which may be missing.  A configuration file that is not
UTF-8 counts as missing.

Files are read through a function that is given, so that what the program prints
is a function of its arguments and of the files it asks for.
-/
import TokenLayout.CommandLine.Arguments
import TokenLayout.Settings

namespace TokenLayout.CommandLine

set_option autoImplicit false

/-- What the program leaves behind. -/
structure Outcome where
  exitCode : Nat
  output : String
  errors : String
  deriving DecidableEq

namespace Outcome

def success (output : String) : Outcome := ⟨0, output, ""⟩

def failure (errors : String) : Outcome := ⟨1, "", errors⟩

def misuse (errors : String) : Outcome := ⟨2, "", errors⟩

end Outcome

/-! ## Texts -/

def versionText : String := "brew 0.1.0\n"

def usageText : String :=
  "Usage: brew [OPTIONS] <path>\n\n" ++
  "Options:\n" ++
  "  -i, --input <format>     Input format: notation, json\n" ++
  "  -f, --format <format>    Output format: tags, notation, json\n" ++
  "      --stop-after <pass>  Stop after the named pass\n" ++
  "      --no-verify          Skip the balance check after all passes\n" ++
  "      --show-locations     Append each token's location in tags output\n" ++
  "  -c, --config <file>      Configuration file layered over the defaults\n" ++
  "      --list-passes        List the passes in the order they run\n" ++
  "  -h, --help               Print help\n" ++
  "  -V, --version            Print version\n"

def passesText : String :=
  "Rewrite passes, in the order they run:\n\n" ++
  String.join (Pass.order.map fun p => "  " ++ p.name ++ "\n    " ++ p.description ++ "\n\n")

/-- The report of a pass that the settings name but that there is not. -/
def unknownPassText (name : String) : String :=
  Pass.unknownMessage name ++ "\n\nAvailable passes:\n" ++
  String.join (Pass.order.map fun p => "  " ++ p.name ++ "\n")

/-- What is wrong with the settings. -/
def settingsText : Settings.Error → String
  | .badKey => "a key is not a path"
  | .missingFile => "the configuration file is missing"
  | .badToml => "the configuration file cannot be read"
  | .badValue => "a setting is missing or has a value it cannot have"

/-! ## Settings -/

/-- The configuration file where none is named. -/
def defaultConfig : String := "brew.toml"

/-- The overrides that options make, key by key. -/
def overrides (o : Options) : List (String × Settings.Value) :=
  (o.format.map fun f => ("output.format", .text f.name)).toList ++
  (o.stopAfter.map fun p => ("rewrite.stop_after", .text p.name)).toList ++
  (if o.noVerify then [("rewrite.verify_balance", .boolean false)] else []) ++
  (if o.showLocations then [("output.show_locations", .boolean true)] else [])

/-- The settings under a configuration file and options. -/
def settings (file : Settings.File) (o : Options) : Except Settings.Error Settings := do
  let layers ← (overrides o).foldlM (fun layers (key, v) => layers.addOverride key v)
    (Settings.Layers.empty.addFile file)
  Settings.ofLayers layers

/-- The resolver that settings ask for, or the name of a pass that there is not. -/
def resolver (s : Settings) : Except String Resolver :=
  match s.stopAfter with
  | none => .ok ⟨none, s.verifyBalance⟩
  | some name =>
      match Pass.ofName? name with
      | some p => .ok ⟨some p, s.verifyBalance⟩
      | none => .error name

/-! ## Running -/

/-- Resolve the stream in a file, given its contents. -/
def resolveFile (path : String) (contents : Option ByteArray) (input : Option InputFormat)
    (s : Settings) : Outcome :=
  match Source.ofFile path contents with
  | .error e => .failure ("Error reading " ++ path ++ ": " ++ e.message ++ "\n")
  | .ok source =>
      match resolver s with
      | .error name => .failure (unknownPassText name)
      | .ok r =>
          let source := { source with format := input.getD source.format }
          match source.through [.resolve r] with
          | .error e => .failure ("Rewrite error: " ++ e.message ++ "\n")
          | .ok tokens => .success (s.format.render s.showLocations tokens ++ "\n")

section

variable {m : Type → Type} [Monad m] (readFile : String → m (Option ByteArray))

/-- Read the configuration file of a name, or else the one of that name with its
usual extension. -/
def readConfig (name : String) : m (Option ByteArray) := do
  match ← readFile name with
  | some bytes => return some bytes
  | none =>
      match Path.extended? name "toml" with
      | some longer => readFile longer
      | none => return none

/-- Do what was asked for. -/
def answer : Request → m Outcome
  | .listPasses => return .success passesText
  | .version => return .success versionText
  | .help => return .success usageText
  | .misuse => return .misuse usageText
  | .resolve path o => do
      let bytes ← readConfig readFile (o.config.getD defaultConfig)
      match settings ⟨o.config.isSome, bytes.bind String.fromUTF8?⟩ o with
      | .error e => return .failure ("Configuration error: " ++ settingsText e ++ "\n")
      | .ok s => return resolveFile path (← readFile path) o.input s

/-- Run the program. -/
def run (arguments : List String) : m Outcome :=
  answer readFile (Request.ofArguments arguments)

end

end TokenLayout.CommandLine
