/-
# TokenLayout.Toml.Value -- the values of a document

What a document writes under its keys: scalars, lists, and tables with keys in the
order in which they are written.
-/
import TokenLayout.Decimal.Binary

namespace TokenLayout.Toml

set_option autoImplicit false

/-- A value and the values in it. -/
inductive Value where
  | boolean (b : Bool)
  | integer (n : Int)
  | fraction (x : Binary64)
  | text (s : String)
  /-- A date, a time of day, or both, as the text that writes it in full. -/
  | moment (written : String)
  | list (items : List Value)
  | table (entries : List (String × Value))

end TokenLayout.Toml
