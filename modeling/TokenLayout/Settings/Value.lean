/-
# TokenLayout.Settings.Value -- trees of values

Settings are gathered in a tree: scalars, lists, and tables of values under keys.
Capitals make no difference in a key, so tables hold keys in small letters.

What is set last counts, leaf by leaf.  Setting a scalar or a list replaces what
the key holds; setting a table sets each of its keys within what the key holds,
so that its siblings stay.  Something that is in the way of a table gives way,
but only to the first key that is set in it: an empty table changes nothing.
-/
import TokenLayout.Decimal.Binary
import TokenLayout.Keyed

namespace TokenLayout.Settings

set_option autoImplicit false

open Keyed (put)

/-- A value and the values in it. -/
inductive Value where
  | nothing
  | boolean (b : Bool)
  | integer (n : Int)
  | fraction (x : Binary64)
  | text (s : String)
  | list (items : List Value)
  | table (entries : List (String × Value))

namespace Value

/-- The entries of a table; anything else has none. -/
def entries : Value → List (String × Value)
  | table es => es
  | _ => []

/-- The items of a list; anything else has none. -/
def items : Value → List Value
  | list vs => vs
  | _ => []

/-- The value under a key of a table. -/
def get? (v : Value) (key : String) : Option Value :=
  v.entries.lookup key

mutual

/-- Set a value under a key of a root, which becomes a table if it is none. -/
def set (root : Value) (key : String) : Value → Value
  | .table es =>
      let held := (root.get? key.toLower).getD (.table [])
      .table (put key.toLower (held.setAll es) root.entries)
  | v => .table (put key.toLower v root.entries)

/-- Set every entry of a table. -/
def setAll (root : Value) : List (String × Value) → Value
  | [] => root
  | (key, v) :: rest => (root.set key v).setAll rest

end

/-- The place of an index in a list of a given length; below zero, indexes count
from the end. -/
def place (length : Nat) (index : Int) : Nat :=
  if 0 ≤ index then index.toNat else length - index.natAbs

/-- Change the item at an index of a list.  The list grows as far as it takes. -/
def changeItem (index : Int) (f : Value → Value) (vs : List Value) : List Value :=
  let i := place vs.length index
  let long := vs ++ List.replicate (i + 1 - vs.length) .nothing
  long.modify i f

end Value

end TokenLayout.Settings
