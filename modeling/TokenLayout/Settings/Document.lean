/-
# TokenLayout.Settings.Document -- a document as a layer of settings

The values of a document become settings as they are, but dates and times become
the texts that write them in full.  A table stands for a date or time, too, if its
first key is one that is kept for this: the text under that key has to spell the
date or time, and the keys after it are left aside.
-/
import TokenLayout.Settings.Value
import TokenLayout.Toml

namespace TokenLayout.Settings

set_option autoImplicit false

/-- The key that is kept for a date or time. -/
def momentKey : String := "$__toml_private_datetime"

/-- The date or time that a text among the values of a document spells. -/
def spelledMoment? : Toml.Value → Option String
  | .text s => Toml.Moment.read? s.toList
  | _ => none

mutual

/-- A value of a document as a setting. -/
def Value.ofToml? : Toml.Value → Option Value
  | .boolean b => some (.boolean b)
  | .integer n => some (.integer n)
  | .fraction x => some (.fraction x)
  | .text s => some (.text s)
  | .moment written => some (.text written)
  | .list items => (itemsOfToml? items).map .list
  | .table [] => some (.table [])
  | .table ((key, v) :: rest) =>
      if key = momentKey then (spelledMoment? v).map .text
      else do
        let first ← ofToml? v
        return .table ((key, first) :: (← entriesOfToml? rest))

/-- The items of a list as settings. -/
def Value.itemsOfToml? : List Toml.Value → Option (List Value)
  | [] => some []
  | v :: rest => do
      let first ← ofToml? v
      return first :: (← itemsOfToml? rest)

/-- The entries of a table as settings. -/
def Value.entriesOfToml? : List (String × Toml.Value) → Option (List (String × Value))
  | [] => some []
  | (key, v) :: rest => do
      let first ← ofToml? v
      return (key, first) :: (← entriesOfToml? rest)

end

/-- The settings of the document that a text holds.  The document itself is a table
and may not stand for a date or time. -/
def ofDocument? (text : String) : Option (List (String × Value)) := do
  match ← Value.ofToml? (.table (← Toml.read text)) with
  | .table entries => some entries
  | _ => none

end TokenLayout.Settings
