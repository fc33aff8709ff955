/-
# TokenLayout.Settings.KeyPath -- naming a value deep in a tree

A path is a key, followed by further steps: `.key` leads to what a table holds
under a key, and `[n]` to an item of a list.  A key is made of letters, digits,
spaces, `_` and `-`.  Setting a value by its path makes every table and list on
the way that is not there.
-/
import TokenLayout.Settings.Value
import TokenLayout.Text.Digit

namespace TokenLayout.Settings

set_option autoImplicit false

open Keyed (put)

/-- One step into a tree. -/
inductive Step where
  | key (name : String)
  | item (index : Int)
  deriving DecidableEq

/-- Steps from the root of a tree on. -/
abbrev KeyPath := List Step

namespace KeyPath

/-- May stand in a key. -/
def isKeyChar (c : Char) : Bool :=
  c.isAlphanum || c == ' ' || c == '_' || c == '-'

/-- The index that a text spells, blanks around it left aside.  It fits 64 bits. -/
def index? (cs : List Char) : Option Int :=
  let blank (c : Char) : Bool := c == ' ' || c == '\t'
  let inner := ((cs.dropWhile blank).reverse.dropWhile blank).reverse
  let (below, ds) := match inner with
    | '-' :: ds => (true, ds)
    | ds => (false, ds)
  let n : Int := Text.spelled 10 ds
  let i := if below then -n else n
  if !ds.isEmpty && ds.all Char.isDigit && Text.fitsWord i then some i else none

/-- The steps that a text spells.  Within brackets there is no bracket, so each
step ends where the next one begins, and the length of the text is fuel enough. -/
def steps? : Nat → List Char → Option KeyPath
  | 0, _ => none
  | _ + 1, [] => some []
  | fuel + 1, '.' :: cs => do
      let name := cs.takeWhile isKeyChar
      if name.isEmpty then none
      else
        let later ← steps? fuel (cs.dropWhile isKeyChar)
        return .key (String.ofList name).toLower :: later
  | fuel + 1, '[' :: cs => do
      let index ← index? (cs.takeWhile (· != ']'))
      match cs.dropWhile (· != ']') with
      | ']' :: rest => return .item index :: (← steps? fuel rest)
      | _ => none
  | _ + 1, _ => none

/-- The path that a text spells. -/
def ofText? (text : String) : Option KeyPath :=
  steps? (text.length + 2) ('.' :: text.toList)

end KeyPath

namespace Value

/-- Set a value by its path. -/
def setAt (v : Value) : Value → KeyPath → Value
  | root, [] => root
  | root, [.key k] => root.set k v
  | root, [.item i] => .list (changeItem i (fun _ => v) root.items)
  | root, .key k :: path =>
      let held := (root.get? k).getD .nothing
      .table (put k (setAt v held path) root.entries)
  | root, .item i :: path =>
      .list (changeItem i (fun held => setAt v held path) root.items)

/-- Set a value by the path its key spells, or under the key itself if it spells
none. -/
def setSpelled (root : Value) (key : String) (v : Value) : Value :=
  match KeyPath.ofText? key with
  | some path => setAt v root path
  | none => root.set key v

end Value

end TokenLayout.Settings
