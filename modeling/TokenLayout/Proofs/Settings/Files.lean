/-
# TokenLayout.Proofs.Settings.Files -- what a file gives the settings

A file holds a document, and what the document gives a setting is what is written in it
under the key of the setting, in the table under the key of its group (`written?`).

A document is `Proper` where the keys on the way to the settings are written once, in any
case, and where the groups are tables and the settings are none.  It is `Literal` where
what it writes is what it means: no key of the document leads on into a group, and no table
but one that spells a date or time begins with the key that is kept for those.  The file of
such a document gives each setting what is written for it, over any tree whose groups are
tables, and leaves every other setting as it was (`exists_layered`).
-/
import TokenLayout.Proofs.Settings.Leaves

namespace TokenLayout

set_option autoImplicit false

namespace Toml.Value

/-- The entries of a table; anything else has none. -/
def entries : Value → List (String × Value)
  | table es => es
  | _ => []

/-- A value as a setting; of lists and tables it is told only that they are such. -/
def setting : Value → Settings.Value
  | boolean b => .boolean b
  | integer n => .integer n
  | fraction x => .fraction x
  | text s => .text s
  | moment written => .text written
  | list _ => .list []
  | table _ => .table []

/-- A value is another one, or somewhere within it. -/
inductive Within : Value → Value → Prop
  | self (v : Value) : Within v v
  | item {v w : Value} {items : List Value} (member : w ∈ items) (within : Within v w) :
      Within v (list items)
  | entry {v w : Value} {key : String} {es : List (String × Value)} (member : (key, w) ∈ es)
      (within : Within v w) : Within v (table es)

theorem Within.of_table {v : Value} {es : List (String × Value)} (within : Within v (table es)) :
    v = table es ∨ ∃ e ∈ es, Within v e.2 := by
  cases within with
  | self => exact .inl rfl
  | entry member within => exact .inr ⟨_, member, within⟩

end Toml.Value

namespace Settings

/-- The entries of a document. -/
abbrev Document := List (String × Toml.Value)

/-- What entries hold under a key that is spelled in any case. -/
def caseless? {α : Type} (key : String) (entries : List (String × α)) : Option α :=
  (entries.find? fun e => e.1.toLower == key).map (·.2)

@[simp] theorem caseless?_nil {α : Type} (key : String) :
    caseless? key ([] : List (String × α)) = none :=
  rfl

theorem caseless?_cons {α : Type} (key : String) (e : String × α) (rest : List (String × α)) :
    caseless? key (e :: rest) = if e.1.toLower = key then some e.2 else caseless? key rest := by
  by_cases here : e.1.toLower = key <;> simp [caseless?, here]

theorem caseless?_eq_none {α : Type} {key : String} {entries : List (String × α)}
    (apart : key ∉ entries.map (·.1.toLower)) : caseless? key entries = none := by
  simpa [caseless?] using apart

theorem caseless?_map {α β : Type} (f : α → β) (key : String) (entries : List (String × α)) :
    caseless? key (entries.map fun e => (e.1, f e.2)) = (caseless? key entries).map f := by
  induction entries with
  | nil => rfl
  | cons e rest ih =>
      rw [List.map_cons, caseless?_cons, caseless?_cons, ih]
      split <;> rfl

namespace Document

/-- What is written for a setting. -/
def written? (doc : Document) (leaf : Leaf) : Option Toml.Value :=
  (caseless? leaf.group doc).bind fun group => caseless? leaf.key group.entries

/-- The keys on the way to the settings are written once, the groups are tables, and the
settings are none. -/
structure Proper (doc : Document) : Prop where
  once : (doc.map (·.1.toLower)).Nodup
  groups : ∀ (leaf : Leaf) (group : Toml.Value), caseless? leaf.group doc = some group →
    ∃ es, group = .table es ∧ (es.map (·.1.toLower)).Nodup
  leaves : ∀ (leaf : Leaf) (v : Toml.Value), doc.written? leaf = some v → ∀ es, v ≠ .table es

/-- Entries of which the first one has the key that is kept for a date or time. -/
def Reserved (entries : Document) : Prop :=
  ∃ v rest, entries = (momentKey, v) :: rest

/-- Wherever the kept key comes first in a table, it holds the text of a date or time. -/
def Readable (v : Toml.Value) : Prop :=
  ∀ (w : Toml.Value) (rest : Document), Toml.Value.Within (.table ((momentKey, w) :: rest)) v →
    ∃ s written, w = .text s ∧ Toml.Moment.read? s.toList = some written

/-- The document means what it writes. -/
structure Literal (doc : Document) : Prop where
  /-- The kept key is used for dates and times, and by neither the document nor a group. -/
  moments : Readable (.table doc)
  whole : ¬Reserved doc
  groups : ∀ (leaf : Leaf) (es : Document), caseless? leaf.group doc = some (.table es) →
    ¬Reserved es
  /-- No key leads on into a group. -/
  keys : ∀ (leaf : Leaf), ∀ e ∈ doc, ¬KeyPath.LeadsOn leaf.group e.1

end Document

open Document (Readable Reserved)

/-! ## A document as a layer -/

namespace Value

theorem ofToml?_table {es : Document} (plain : ¬Reserved es) :
    ofToml? (.table es) = (entriesOfToml? es).map .table := by
  cases es with
  | nil => rfl
  | cons e rest =>
      obtain ⟨key, v⟩ := e
      have other : key ≠ momentKey := fun same => plain ⟨v, rest, same ▸ rfl⟩
      rw [ofToml?, if_neg other, entriesOfToml?]
      cases ofToml? v with
      | none => rfl
      | some first => cases entriesOfToml? rest <;> rfl

mutual

/-- Every readable value is one of settings. -/
theorem exists_ofToml? : ∀ v : Toml.Value, Readable v → ∃ x, ofToml? v = some x
  | .boolean _, _ | .integer _, _ | .fraction _, _ | .text _, _ | .moment _, _ => ⟨_, rfl⟩
  | .list items, readable => by
      obtain ⟨xs, read⟩ := exists_itemsOfToml? items fun v member w rest within =>
        readable w rest (.item member within)
      exact ⟨.list xs, by rw [ofToml?, read]; rfl⟩
  | .table es, readable => by
      by_cases reserved : Reserved es
      · obtain ⟨v, rest, rfl⟩ := reserved
        obtain ⟨s, written, rfl, spelled⟩ := readable v rest (.self _)
        exact ⟨.text written, by rw [ofToml?, if_pos rfl, spelledMoment?, spelled]; rfl⟩
      · obtain ⟨xs, read⟩ := exists_entriesOfToml? es fun e member w rest within =>
          readable w rest (.entry member within)
        exact ⟨.table xs, by rw [ofToml?_table reserved, read]; rfl⟩

theorem exists_itemsOfToml? : ∀ items : List Toml.Value, (∀ v ∈ items, Readable v) →
    ∃ xs, itemsOfToml? items = some xs
  | [], _ => ⟨[], rfl⟩
  | v :: rest, readable => by
      obtain ⟨x, first⟩ := exists_ofToml? v (readable v (.head _))
      obtain ⟨xs, later⟩ := exists_itemsOfToml? rest fun w member => readable w (.tail v member)
      exact ⟨x :: xs, by rw [itemsOfToml?, first, later]; rfl⟩

theorem exists_entriesOfToml? : ∀ es : Document, (∀ e ∈ es, Readable e.2) →
    ∃ xs, entriesOfToml? es = some xs
  | [], _ => ⟨[], rfl⟩
  | (key, v) :: rest, readable => by
      obtain ⟨x, first⟩ := exists_ofToml? v (readable (key, v) (.head _))
      obtain ⟨xs, later⟩ := exists_entriesOfToml? rest fun e member => readable e (.tail _ member)
      exact ⟨(key, x) :: xs, by rw [entriesOfToml?, first, later]; rfl⟩

end

/-- What is written as no table is the setting that it is written as. -/
theorem shell_of_ofToml? {v : Toml.Value} {x : Value} (read : ofToml? v = some x)
    (leaf : ∀ es, v ≠ .table es) : ¬x.IsTable ∧ x.shell = v.setting := by
  cases v with
  | table es => exact absurd rfl (leaf es)
  | list items =>
      obtain ⟨xs, -, rfl⟩ := Option.map_eq_some_iff.1 read
      exact ⟨(nomatch ·), rfl⟩
  | _ =>
      obtain rfl := Option.some.inj read
      exact ⟨(nomatch ·), rfl⟩

theorem keys_of_entriesOfToml? {doc : Document} {entries : List (String × Value)}
    (read : entriesOfToml? doc = some entries) : entries.map (·.1) = doc.map (·.1) := by
  induction doc generalizing entries with
  | nil => rw [← Option.some.inj read, List.map_nil, List.map_nil]
  | cons e rest ih =>
      obtain ⟨key, v⟩ := e
      obtain ⟨x, first, later⟩ := Option.bind_eq_some_iff.1 read
      obtain ⟨xs, behind, whole⟩ := Option.bind_eq_some_iff.1 later
      rw [← Option.some.inj whole]
      exact congrArg (key :: ·) (ih behind)

theorem once_of_entriesOfToml? {doc : Document} {entries : List (String × Value)}
    (read : entriesOfToml? doc = some entries) (once : (doc.map (·.1.toLower)).Nodup) :
    (entries.map (·.1.toLower)).Nodup := by
  have lower := congrArg (List.map String.toLower) (keys_of_entriesOfToml? read)
  rw [List.map_map, List.map_map] at lower
  exact lower ▸ once

/-- What entries hold under a key is what is written there. -/
theorem caseless?_of_entriesOfToml? {doc : Document} {entries : List (String × Value)}
    (read : entriesOfToml? doc = some entries) (key : String) :
    caseless? key doc = none ∧ caseless? key entries = none ∨
      ∃ v x, caseless? key doc = some v ∧ ofToml? v = some x ∧ caseless? key entries = some x := by
  induction doc generalizing entries with
  | nil =>
      obtain rfl := Option.some.inj read
      exact .inl ⟨rfl, rfl⟩
  | cons e rest ih =>
      obtain ⟨k, v⟩ := e
      obtain ⟨x, first, later⟩ := Option.bind_eq_some_iff.1 read
      obtain ⟨xs, behind, whole⟩ := Option.bind_eq_some_iff.1 later
      obtain rfl := Option.some.inj whole
      rw [caseless?_cons, caseless?_cons]
      by_cases here : k.toLower = key
      · exact .inr ⟨v, x, if_pos here, first, if_pos here⟩
      · rw [if_neg here, if_neg here]
        exact ih behind

/-! ## Entries over a tree -/

/-- Entries that are set one after the other and have a key once in any case make of it what
is under it, over what was held there before. -/
theorem get?_foldl {key : String} {set : Value → String × Value → Value}
    {es : List (String × Value)} (once : (es.map (·.1.toLower)).Nodup)
    (step : ∀ e ∈ es, ∀ root : Value, (set root e).get? key =
      if e.1.toLower = key then some (e.2.onto (root.get? key)) else root.get? key)
    (root : Value) : (es.foldl set root).get? key =
      ((caseless? key es).map (·.onto (root.get? key))).or (root.get? key) := by
  induction es generalizing root with
  | nil => rfl
  | cons e rest ih =>
      obtain ⟨apart, once⟩ := List.nodup_cons.1 once
      have later := ih once (fun e' member => step e' (.tail e member)) (set root e)
      rw [List.foldl_cons, later, step e (.head _) root]
      by_cases here : e.1.toLower = key
      · rw [caseless?_cons, if_pos here, if_pos here, caseless?_eq_none (here ▸ apart)]
        rfl
      · rw [caseless?_cons, if_neg here, if_neg here]

theorem get?_set (root : Value) (key : String) (v : Value) (other : String) :
    (root.set key v).get? other =
      if key.toLower = other then some (v.onto (root.get? other)) else root.get? other := by
  rw [set_eq]
  by_cases same : key.toLower = other
  · rw [if_pos same, same, get?_put_same]
  · rw [if_neg same, get?_put_other (Ne.symm same)]

theorem get?_setAll {key : String} {es : List (String × Value)}
    (once : (es.map (·.1.toLower)).Nodup) (root : Value) : (root.setAll es).get? key =
      ((caseless? key es).map (·.onto (root.get? key))).or (root.get? key) := by
  have one_by_one : ∀ (es : List (String × Value)) (root : Value),
      root.setAll es = es.foldl (fun root e => root.set e.1 e.2) root := by
    intro es
    induction es with
    | nil => exact fun root => rfl
    | cons e rest ih => exact fun root => ih (root.set e.1 e.2)
  rw [one_by_one]
  exact get?_foldl once (fun e _ root => get?_set root e.1 e.2 key) root

/-- A key of a file sets what is under itself, unless it leads on. -/
theorem get?_setSpelled {group key : String}
    (chars : ∀ c ∈ group.toList, KeyPath.isKeyChar c = true)
    (apart : ¬KeyPath.LeadsOn group key) (root v : Value) : (root.setSpelled key v).get? group =
      if key.toLower = group then some (v.onto (root.get? group)) else root.get? group := by
  obtain ⟨first, rest, sets, ⟨rfl, same⟩ | ⟨goesOn, leads⟩⟩ := exists_setSpelled key
  · rw [sets, ← same]
    exact get?_set root first v group
  · have other : key.toLower ≠ group := by
      rintro rfl
      exact not_leadsOn chars leads
    have first_ne : group ≠ firstKey first rest := by
      rintro rfl
      rw [firstKey, if_neg (by simpa using goesOn)] at apart
      exact apart leads
    rw [sets, if_neg other, get?_setAt_other first_ne]

theorem isTable_setFile {root : Value} (table : root.IsTable) (entries : List (String × Value)) :
    (root.setFile entries).IsTable := by
  induction entries generalizing root with
  | nil => exact table
  | cons e rest ih =>
      obtain ⟨first, path, sets, -⟩ := exists_setSpelled e.1
      have set : (root.setSpelled e.1 e.2).IsTable := by
        rw [sets]
        exact isTable_setAt_key e.2 root first path
      exact ih set

end Value

namespace Document

variable {doc : Document} {entries : List (String × Value)}

/-- What a document makes of the table of a group. -/
theorem Proper.get?_group (proper : doc.Proper) (literal : doc.Literal)
    (read : Value.entriesOfToml? doc = some entries) (root : Value) (leaf : Leaf) :
    caseless? leaf.group doc = none ∧
        (root.setFile entries).get? leaf.group = root.get? leaf.group ∨
      ∃ es xs, caseless? leaf.group doc = some (.table es) ∧ (es.map (·.1.toLower)).Nodup ∧
        Value.entriesOfToml? es = some xs ∧ (root.setFile entries).get? leaf.group =
          some (((root.get? leaf.group).getD (.table [])).setAll xs) := by
  have keys := Value.keys_of_entriesOfToml? read
  have step : ∀ e ∈ entries, ∀ root : Value, (root.setSpelled e.1 e.2).get? leaf.group =
      if e.1.toLower = leaf.group then some (e.2.onto (root.get? leaf.group))
      else root.get? leaf.group := by
    intro e member root
    have there : e.1 ∈ doc.map (·.1) := keys ▸ List.mem_map_of_mem member
    obtain ⟨e', member', same⟩ := List.mem_map.1 there
    exact Value.get?_setSpelled leaf.group_chars (same ▸ literal.keys leaf e' member') root e.2
  have whole := Value.get?_foldl (Value.once_of_entriesOfToml? read proper.once) step root
  obtain ⟨absent, none⟩ | ⟨v, x, present, made, some⟩ :=
    Value.caseless?_of_entriesOfToml? read leaf.group
  · rw [none] at whole
    exact .inl ⟨absent, whole⟩
  · obtain ⟨es, rfl, onceWithin⟩ := proper.groups leaf v present
    rw [Value.ofToml?_table (literal.groups leaf es present)] at made
    obtain ⟨xs, within, rfl⟩ := Option.map_eq_some_iff.1 made
    rw [some] at whole
    exact .inr ⟨es, xs, present, onceWithin, within, whole⟩

/-- **A document gives each setting what is written for it, and leaves the others.** -/
theorem Proper.shown?_setFile (proper : doc.Proper) (literal : doc.Literal)
    (read : Value.entriesOfToml? doc = some entries) {root : Value} (grouped : root.Grouped) :
    (root.setFile entries).Grouped ∧ ∀ leaf : Leaf, (root.setFile entries).shown? leaf =
      ((doc.written? leaf).map Toml.Value.setting).or (root.shown? leaf) := by
  refine ⟨⟨Value.isTable_setFile grouped.table entries, fun leaf g held => ?_⟩, fun leaf => ?_⟩
  · obtain ⟨-, same⟩ | ⟨es, xs, -, -, -, changed⟩ := proper.get?_group literal read root leaf
    · exact grouped.groups leaf g (same ▸ held)
    · rw [changed] at held
      obtain rfl := Option.some.inj held
      refine Value.isTable_setAll ?_ xs
      cases before : root.get? leaf.group with
      | none => exact ⟨[], rfl⟩
      | some old => exact grouped.groups leaf old before
  · obtain ⟨absent, same⟩ | ⟨es, xs, present, once, within, changed⟩ :=
      proper.get?_group literal read root leaf
    · rw [written?, absent, Value.shown?, Value.held?, same]
      rfl
    · have written : doc.written? leaf = caseless? leaf.key es := by
        rw [written?, present]
        rfl
      have before : root.held? leaf = ((root.get? leaf.group).getD (.table [])).get? leaf.key := by
        rw [Value.held?]
        cases root.get? leaf.group <;> rfl
      rw [written, Value.shown?, Value.held?, changed, Option.bind_some,
        Value.get?_setAll (Value.once_of_entriesOfToml? within once), ← before]
      obtain ⟨absent, none⟩ | ⟨v, x, there, made, some⟩ :=
        Value.caseless?_of_entriesOfToml? within leaf.key
      · rw [absent, none]
        rfl
      · obtain ⟨scalar, shell⟩ :=
          Value.shell_of_ofToml? made (proper.leaves leaf v (written.trans there))
        rw [there, some, Option.map_some, Option.map_some, Option.some_or, Option.some_or,
          Value.onto_of_not_table scalar, Option.map_some, shell]

end Document

/-! ## Files -/

namespace File

/-- The document that a file holds.  A file that may be missing holds an empty one when it
is. -/
def document? (f : File) : Option Document :=
  match f.text with
  | some text => Toml.read text
  | none => if f.required then none else some []

/-- What a file has written for a setting, as a setting. -/
def written? (f : File) (leaf : Leaf) : Option Value :=
  (f.document?.bind (·.written? leaf)).map Toml.Value.setting

/-- The file holds a document that is as it should be. -/
def Proper (f : File) : Prop :=
  ∃ doc, f.document? = some doc ∧ doc.Proper

/-- The document in the file, if there is one, means what it writes. -/
def Literal (f : File) : Prop :=
  ∀ doc, f.document? = some doc → doc.Literal

/-- A literal document can be read as a layer. -/
theorem exists_entries {f : File} {doc : Document} (holds : f.document? = some doc)
    (literal : doc.Literal) :
    ∃ entries, f.entries = .ok entries ∧ Value.entriesOfToml? doc = some entries := by
  obtain ⟨x, made⟩ := Value.exists_ofToml? (.table doc) literal.moments
  rw [Value.ofToml?_table literal.whole] at made
  obtain ⟨entries, read, rfl⟩ := Option.map_eq_some_iff.1 made
  refine ⟨entries, ?_, read⟩
  cases text : f.text with
  | none =>
      rw [document?, text] at holds
      obtain ⟨optional, none⟩ := Option.ite_none_left_eq_some.1 holds
      obtain rfl := Option.some.inj none
      obtain rfl := Option.some.inj read
      rw [File.entries, text]
      exact if_neg optional
  | some t =>
      rw [document?, text] at holds
      have whole : ofDocument? t = some entries := by
        rw [ofDocument?, show Toml.read t = some doc from holds]
        simp [Value.ofToml?_table literal.whole, read]
      simp only [File.entries, text, whole]

/-- **A file gives each setting what is written in it for it, and leaves the others.** -/
theorem exists_layered {f : File} (proper : f.Proper) (literal : f.Literal) :
    ∃ entries, f.entries = .ok entries ∧ ∀ root : Value, root.Grouped →
      (root.setFile entries).Grouped ∧ ∀ leaf : Leaf,
        (root.setFile entries).shown? leaf = (f.written? leaf).or (root.shown? leaf) := by
  obtain ⟨doc, holds, proper⟩ := proper
  obtain ⟨entries, opened, read⟩ := exists_entries holds (literal doc holds)
  refine ⟨entries, opened, fun root grouped => ?_⟩
  rw [show f.written? = fun leaf => (doc.written? leaf).map Toml.Value.setting by
    funext leaf; rw [written?, holds]; rfl]
  exact proper.shown?_setFile (literal doc holds) read grouped

end File

end Settings

end TokenLayout
