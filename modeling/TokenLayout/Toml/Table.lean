/-
# TokenLayout.Toml.Table -- tables that a document builds up

A table of a document comes about in one of three ways: it has a header of its
own, it lies on the way to a table with a header, or it lies on the way to a
value whose key has several parts.  What may still be added to it depends on that:

* a table is given a header at most once, and not after a key of several parts
  led through it;
* a key of several parts leads only through tables made by such keys;
* a value is never added to once it is written, even if it is a table.

A table that is given a header after it was passed on the way to another one moves
to the end of the table around it.
-/
import TokenLayout.Keyed
import TokenLayout.Toml.Value

namespace TokenLayout.Toml

set_option autoImplicit false

open Keyed (erase put)

/-- How a table came about. -/
inductive Making where
  /-- It has a header, or it is the document itself. -/
  | headed
  /-- It lies on the way to a header. -/
  | passed
  /-- It lies on the way to a value. -/
  | dotted
  deriving DecidableEq

/-- What stands under a key. -/
inductive Item where
  | value (v : Value)
  | table (making : Making) (entries : List (String × Item))
  /-- Tables with the same header, last one first. -/
  | tables (elements : List (List (String × Item)))

abbrev Entries := List (String × Item)

mutual

/-- The value an item amounts to. -/
def Item.toValue : Item → Value
  | .value v => v
  | .table _ entries => .table (entriesToValues entries)
  | .tables elements => .list (elementsToValues elements).reverse

def entriesToValues : Entries → List (String × Value)
  | [] => []
  | (key, item) :: rest => (key, item.toValue) :: entriesToValues rest

def elementsToValues : List Entries → List Value
  | [] => []
  | entries :: rest => .table (entriesToValues entries) :: elementsToValues rest

end

/-- Change the table at the end of a path, making the tables on the way that are
not there.  The change also receives how that table came about.  Of several
tables with the same header the path leads into the last. -/
def within (making : Making) (change : Making → Entries → Option Entries) :
    List String → Making → Entries → Option Entries
  | [], here, entries => change here entries
  | key :: path, _, entries =>
      match entries.lookup key with
      | none =>
          (within making change path making []).map fun inner =>
            put key (.table making inner) entries
      | some (.value _) => none
      | some (.table made inner) =>
          if making = .dotted ∧ made = .headed then none
          else
            (within making change path made inner).map fun inner =>
              put key (.table made inner) entries
      | some (.tables []) => none
      | some (.tables (last :: earlier)) =>
          (within making change path .headed last).map fun last =>
            put key (.tables (last :: earlier)) entries

/-- Add a value under a new key of a table. -/
def addNew (key : String) (v : Value) (entries : Entries) : Option Entries :=
  match entries.lookup key with
  | none => some (put key (.value v) entries)
  | some _ => none

/-- Add a value to a table under a key of one part or more. -/
def assign (entries : Entries) (key : List String) (v : Value) : Option Entries :=
  match key.getLast? with
  | none => none
  | some last =>
      if key.length = 1 then addNew last v entries
      else
        within .dotted
          (fun here inner => if here = .dotted then addNew last v inner else none)
          key.dropLast .headed entries

/-- The table between braces that holds these values. -/
def braced (members : List (List String × Value)) : Option Value :=
  (members.foldlM (fun entries (key, v) => assign entries key v) []).map fun entries =>
    .table (entriesToValues entries)

/-! ## Whole documents -/

/-- A statement of a document. -/
inductive Statement where
  /-- A value under a key of the table last headed. -/
  | value (key : List String) (v : Value)
  /-- The header of a table. -/
  | header (key : List String)
  /-- The header of one more table with this header. -/
  | element (key : List String)

/-- A document read so far.  The table that statements add to stands apart from
the others until the next header. -/
structure Draft where
  root : Entries
  /-- The header of the open table; the document itself has none. -/
  key : List String
  /-- More tables may have the same header. -/
  isElement : Bool
  opened : Entries

namespace Draft

def empty : Draft := ⟨[], [], false, []⟩

/-- Change the table that the last part of a header stands in. -/
def atParent (root : Entries) (key : List String) (change : String → Entries → Option Entries) :
    Option Entries :=
  match key.getLast? with
  | none => none
  | some last => within .passed (fun _ inner => change last inner) key.dropLast .headed root

/-- The document with the open table in its place. -/
def close (d : Draft) : Option Entries :=
  if d.key.isEmpty then some d.opened
  else
    atParent d.root d.key fun last inner =>
      if d.isElement then
        match inner.lookup last with
        | none => some (put last (.tables [d.opened]) inner)
        | some (.tables elements) => some (put last (.tables (d.opened :: elements)) inner)
        | some _ => none
      else some (put last (.table .headed d.opened) inner)

/-- What a header takes over from a table on the way to an earlier header; `none`
if it may not stand here. -/
def takeOver? (root : Entries) (key : List String) : Option Entries :=
  match key with
  | [] => none
  | [last] =>
      match root.lookup last with
      | none => some []
      | some (.table .passed inner) => some inner
      | some _ => none
  | first :: rest =>
      match root.lookup first with
      | none => some []
      | some (.value _) => none
      | some (.table _ inner) => takeOver? inner rest
      | some (.tables []) => none
      | some (.tables (last :: _)) => takeOver? last rest

/-- One more table may have this header. -/
def mayRepeat (root : Entries) (key : List String) : Bool :=
  match key with
  | [] => false
  | [last] =>
      match root.lookup last with
      | none => true
      | some (.tables _) => true
      | some _ => false
  | first :: rest =>
      match root.lookup first with
      | none => true
      | some (.value _) => false
      | some (.table _ inner) => mayRepeat inner rest
      | some (.tables []) => false
      | some (.tables (last :: _)) => mayRepeat last rest

/-- Take up a statement. -/
def take (d : Draft) : Statement → Option Draft
  | .value key v => (assign d.opened key v).map fun opened => { d with opened := opened }
  | .header key => do
      let root ← d.close
      let taken ← takeOver? root key
      let root ← atParent root key fun last inner => some (erase last inner)
      return ⟨root, key, false, taken⟩
  | .element key => do
      let root ← d.close
      if mayRepeat root key then return ⟨root, key, true, []⟩ else none

end Draft

/-- The entries of a document. -/
def document (statements : List Statement) : Option (List (String × Value)) := do
  let d ← statements.foldlM Draft.take Draft.empty
  return entriesToValues (← d.close)

end TokenLayout.Toml
