/-
# TokenLayout.CommandLine.Arguments -- what a command line asks for

Arguments are taken in order.  An option that takes a value has it attached, as in
`--format=tags`, `-ftags` or `-f=tags`, or finds it in the next argument, which must
not look like an option itself.  Everything after `--` is a path.

Nothing may be given twice, and there is exactly one path, unless only the passes
are to be listed.  The first argument that is wrong ends the reading, and so does a
request for the version or for help: what comes after it does not matter.
-/
import TokenLayout.Output
import TokenLayout.Pass
import TokenLayout.Source

namespace TokenLayout.CommandLine

set_option autoImplicit false

/-- An option that takes a value. -/
inductive Valued where
  | input
  | format
  | stopAfter
  | config
  deriving DecidableEq

/-- An option that takes none. -/
inductive Flag where
  | noVerify
  | showLocations
  | listPasses
  deriving DecidableEq

/-- What an argument is. -/
inductive Argument where
  /-- From here on there are only paths. -/
  | onlyPaths
  | path (text : String)
  /-- An option with the value attached to it, if there is one. -/
  | valued (option : Valued) (value : Option String)
  | flag (f : Flag)
  | version
  | help
  | unknown
  deriving DecidableEq

namespace Argument

/-- The option of a long name, with what is attached to it. -/
def ofLongName (name : String) (value : Option String) : Argument :=
  match name, value with
  | "input", _ => valued .input value
  | "format", _ => valued .format value
  | "stop-after", _ => valued .stopAfter value
  | "config", _ => valued .config value
  | "no-verify", none => flag .noVerify
  | "show-locations", none => flag .showLocations
  | "list-passes", none => flag .listPasses
  | "version", none => version
  | "help", none => help
  | _, _ => unknown

/-- An option by its letter, with the text after the letter.  Every letter either
takes that text as its value or makes it irrelevant. -/
def ofLetter (letter : Char) (rest : List Char) : Argument :=
  let attached := match rest with
    | [] => none
    | '=' :: value => some (String.ofList value)
    | value => some (String.ofList value)
  match letter with
  | 'i' => valued .input attached
  | 'f' => valued .format attached
  | 'c' => valued .config attached
  | 'V' => version
  | 'h' => help
  | _ => unknown

/-- What an argument is, going by how it begins. -/
def ofText (text : String) : Argument :=
  match text.toList with
  | ['-', '-'] => onlyPaths
  | '-' :: '-' :: cs =>
      let name := String.ofList (cs.takeWhile (· != '='))
      match cs.dropWhile (· != '=') with
      | _ :: value => ofLongName name (some (String.ofList value))
      | [] => ofLongName name none
  | '-' :: letter :: rest => ofLetter letter rest
  | _ => path text

/-- The argument can be the value of the option before it. -/
def isPath : Argument → Bool
  | path _ => true
  | _ => false

end Argument

/-- The options given. -/
structure Options where
  path : Option String := none
  input : Option InputFormat := none
  format : Option OutputFormat := none
  stopAfter : Option Pass := none
  config : Option String := none
  noVerify : Bool := false
  showLocations : Bool := false
  listPasses : Bool := false
  deriving DecidableEq

/-- What is asked for. -/
inductive Request where
  /-- Resolve the stream at a path. -/
  | resolve (path : String) (options : Options)
  | listPasses
  | version
  | help
  /-- The arguments make no sense. -/
  | misuse
  deriving DecidableEq

namespace Options

/-- Fill in what was not given before. -/
def once {α : Type} (before : Option α) (value : Option α) : Option (Option α) :=
  match before, value with
  | none, some v => some (some v)
  | _, _ => none

/-- Take up a path, the only one. -/
def addPath (o : Options) (text : String) : Option Options :=
  (once o.path (some text)).map fun path => { o with path := path }

/-- Take up an option with its value, which the option must allow. -/
def addValue (o : Options) (option : Valued) (value : String) : Option Options :=
  match option with
  | .input => (once o.input (InputFormat.ofName? value)).map fun v => { o with input := v }
  | .format => (once o.format (OutputFormat.ofName? value)).map fun v => { o with format := v }
  | .stopAfter => (once o.stopAfter (Pass.ofName? value)).map fun v => { o with stopAfter := v }
  | .config => (once o.config (some value)).map fun v => { o with config := v }

/-- Take up an option without a value. -/
def addFlag (o : Options) (f : Flag) : Option Options :=
  match f with
  | .noVerify => if o.noVerify then none else some { o with noVerify := true }
  | .showLocations => if o.showLocations then none else some { o with showLocations := true }
  | .listPasses => if o.listPasses then none else some { o with listPasses := true }

/-- What the options ask for, all arguments taken up. -/
def request (o : Options) : Request :=
  if o.listPasses then .listPasses
  else
    match o.path with
    | some path => .resolve path o
    | none => .misuse

/-- Take up the remaining arguments as paths. -/
def addPaths (o : Options) (texts : List String) : Request :=
  match texts.foldlM addPath o with
  | some o => o.request
  | none => .misuse

/-- Take up the remaining arguments. -/
def read (o : Options) : List String → Request
  | [] => o.request
  | text :: rest =>
      match Argument.ofText text with
      | .onlyPaths => o.addPaths rest
      | .path _ =>
          match o.addPath text with
          | some o => o.read rest
          | none => .misuse
      | .valued option (some value) =>
          match o.addValue option value with
          | some o => o.read rest
          | none => .misuse
      | .valued option none =>
          match rest with
          | value :: rest =>
              if (Argument.ofText value).isPath then
                match o.addValue option value with
                | some o => o.read rest
                | none => .misuse
              else .misuse
          | [] => .misuse
      | .flag f =>
          match o.addFlag f with
          | some o => o.read rest
          | none => .misuse
      | .version => .version
      | .help => .help
      | .unknown => .misuse

end Options

/-- What a command line asks for. -/
def Request.ofArguments (arguments : List String) : Request :=
  Options.read {} arguments

end TokenLayout.CommandLine
