/-
# TokenLayout.Settings -- what can be configured

Five settings in three groups.  Their values are read from the tree of all layers,
each by the type it has: a truth value is also read from a number or from a word
for yes or no, a text also from a scalar of another kind, and a format from its
name.  Keys that no setting has are left aside.

A group is a table; it may also be given as a list of its settings in order.
-/
import TokenLayout.Decimal.Shortest
import TokenLayout.Output
import TokenLayout.Settings.Layers

namespace TokenLayout

set_option autoImplicit false

/-- All settings. -/
structure Settings where
  /-- Balance is verified after all passes. -/
  verifyBalance : Bool
  /-- The name of the last pass to run. -/
  stopAfter : Option String
  format : OutputFormat
  /-- A line of tags shows locations. -/
  showLocations : Bool
  /-- What is logged. -/
  filter : String
  deriving DecidableEq

namespace Settings

/-- The values of the settings that have one by default. -/
def defaults : List (String × Value) :=
  [("rewrite", .table [("verify_balance", .boolean true)]),
   ("output", .table [("format", .text "notation"), ("show_locations", .boolean false)]),
   ("logging", .table [("filter", .text "warn")])]

namespace Value

/-- A binary fraction in full, without an exponent. -/
def fractionLayout : Decimal.Layout where
  tie := .away
  positional := fun _ => true
  exponentSign := ""
  wholeMark := ""
  infinity := "inf"
  undefined := "NaN"

/-- The truth value that a value stands for. -/
def truth? : Value → Option Bool
  | boolean b => some b
  | integer n => some (n ≠ 0)
  | fraction x => some (!x.isZero)
  | text s =>
      if ["true", "on", "yes", "1"].contains s.toLower then some true
      else if ["false", "off", "no", "0"].contains s.toLower then some false
      else none
  | _ => none

/-- The text that a value stands for. -/
def text? : Value → Option String
  | text s => some s
  | boolean b => some (toString b)
  | integer n => some (toString n)
  | fraction x => some (Decimal.write fractionLayout x)
  | _ => none

/-- The text that a value stands for, where there may be none. -/
def optionalText? : Value → Option (Option String)
  | nothing => some none
  | v => v.text?.map some

/-- The format that a value names, by itself or as the only key of a table. -/
def format? : Value → Option OutputFormat
  | text s => OutputFormat.ofName? s.toLower
  | table [(key, _)] => OutputFormat.ofName? key.toLower
  | _ => none

/-- The setting of a group under a key of its table, or at its place in a list. -/
def setting? (group : Value) (key : String) (place : Nat) : Option Value :=
  match group with
  | table es => es.lookup key
  | list vs => vs[place]?
  | _ => none

/-- The settings that a tree holds. -/
def settings? (root : Value) : Option Settings := do
  let passes ← root.setting? "rewrite" 0
  let output ← root.setting? "output" 1
  let logging ← root.setting? "logging" 2
  let stopAfter ← match passes.setting? "stop_after" 1 with
    | some v => v.optionalText?
    | none => some none
  return {
    verifyBalance := ← (← passes.setting? "verify_balance" 0).truth?
    stopAfter := stopAfter
    format := ← (← output.setting? "format" 0).format?
    showLocations := ← (← output.setting? "show_locations" 1).truth?
    filter := ← (← logging.setting? "filter" 0).text? }

end Value

/-- The settings that layers over the defaults amount to. -/
def ofLayers (layers : Layers) : Except Error Settings := do
  match (← layers.merged defaults).settings? with
  | some settings => .ok settings
  | none => .error .badValue

end Settings

end TokenLayout
