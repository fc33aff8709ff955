/-
# TokenLayout.Proofs.Json.Records -- written arrays and records read back

What is read may begin with blanks, and behind it comes what parts it from the rest
(`Reads`).  So a reader can be followed over laid out text without a look at the layout.

Parts between brackets are taken up one by one, each with the comma and the line feed in
front of it.  An array is read if its items are (`array_reads`).  A record is read if its
members, one after another, fill it (`Record.Fills`): each is read into what the earlier
ones made of the record, no name comes twice, and none that is required is missing.
-/
import Mathlib.Data.List.Forall2
import TokenLayout.Json.Stream
import TokenLayout.Proofs.Json.Text

namespace TokenLayout.Json

set_option autoImplicit false

open List (Forall₂)

/-! ## Blanks -/

/-- All of the text is blank. -/
def Blank (text : List Char) : Prop :=
  ∀ c ∈ text, isBlank c = true

theorem Blank.nil : Blank [] := by
  simp [Blank]

theorem blank_newLine (level : Nat) : Blank (newLine level) := by
  intro c member
  rcases List.mem_cons.1 member with rfl | space
  · rfl
  · rw [List.eq_of_mem_replicate space]
    rfl

theorem Blank.skip {blanks : List Char} (blank : Blank blanks) (rest : List Char) :
    skipBlank (blanks ++ rest) = skipBlank rest :=
  List.dropWhile_append_of_pos blank

theorem skipBlank_cons {c : Char} (solid : isBlank c = false) (rest : List Char) :
    skipBlank (c :: rest) = c :: rest := by
  simp [skipBlank, solid]

theorem Blank.skip_cons {blanks : List Char} (blank : Blank blanks) {c : Char}
    (solid : isBlank c = false) (rest : List Char) :
    skipBlank (blanks ++ c :: rest) = c :: rest := by
  rw [blank.skip, skipBlank_cons solid]

/-! ## Readers -/

section

variable {α β : Type}

/-- The reader takes this text for the value, behind any blanks and in front of all that may
follow a value. -/
def Reads (reader : Reader α) (written : List Char) (value : α) : Prop :=
  ∀ blanks rest, Blank blanks → Parted rest →
    reader (blanks ++ (written ++ rest)) = .ok (value, rest)

theorem string_reads (cs : List Char) : Reads string (writeString cs) (String.ofList cs) := by
  intro blanks rest blank _
  have text : writeString cs ++ rest = '"' :: (cs.flatMap escapeChar ++ '"' :: rest) := by
    simp [writeString]
  rw [string, stringOf, text, blank.skip_cons rfl]
  simp only [stringBody?_escaped]
  rfl

theorem size_reads {n : Nat} (fits : n < 2 ^ 64) : Reads size (writeNat n) n := by
  intro blanks rest blank parted
  obtain ⟨d, ds, digits⟩ := List.exists_cons_of_ne_nil (Nat.toDigits_ne_nil (n := n) (b := 10))
  have digit : d.isDigit = true :=
    Nat.isDigit_of_mem_toDigits (by decide) (by decide) (digits ▸ List.mem_cons_self)
  have solid : isBlank d = false ∧ d ≠ '-' := by
    constructor
    · by_contra blank
      simp only [isBlank, Bool.not_eq_false, Bool.or_eq_true, beq_iff_eq] at blank
      rcases blank with ((rfl | rfl) | rfl) | rfl <;> cases digit
    · rintro rfl
      cases digit
  have number := number?_toDigits fits parted
  rw [digits, List.cons_append] at number
  rw [size, writeNat, digits, List.cons_append, blank.skip_cons solid.1]
  split
  · rename_i same
    exact absurd (List.cons.inj same).1 solid.2
  · rename_i c cs same
    obtain ⟨rfl, rfl⟩ := List.cons.inj same
    rw [if_pos digit, number]
    rfl
  · rename_i none
    cases none

theorem boolean_reads_true : Reads boolean "true".toList true := by
  intro blanks rest blank _
  have text : "true".toList ++ rest = 't' :: 'r' :: 'u' :: 'e' :: rest := rfl
  rw [boolean, text, blank.skip_cons rfl]
  rfl

theorem optional_reads_none (reader : Reader α) : Reads (optional reader) "null".toList none := by
  intro blanks rest blank _
  have text : "null".toList ++ rest = 'n' :: 'u' :: 'l' :: 'l' :: rest := rfl
  rw [optional, text, blank.skip_cons rfl]
  rfl

/-- Text that begins with a brace is not `null`. -/
theorem optional_reads_some {reader : Reader α} {written : List Char} {value : α}
    (braced : written.head? = some '{') (reads : Reads reader written value) :
    Reads (optional reader) written (some value) := by
  intro blanks rest blank parted
  obtain ⟨cs, rfl⟩ := List.head?_eq_some_iff.1 braced
  have here := reads [] rest .nil parted
  rw [List.nil_append] at here
  rw [optional, List.cons_append, blank.skip_cons rfl]
  show mapValue some (reader ('{' :: cs ++ rest)) = _
  rw [here]
  rfl

theorem into_reads {reader : Reader β} {written : List Char} {part : β} (put : α → β → α)
    (value : α) (reads : Reads reader written part) :
    Reads (into reader put value) written (put value part) := by
  intro blanks rest blank parted
  rw [into, reads blanks rest blank parted]
  rfl

/-! ## Parts between brackets -/

/-- The parts behind the first one, up to the bracket that closes them. -/
def further (right : Char) (level : Nat) (parts : List (List Char)) : List Char :=
  parts.flatMap (fun part => ',' :: (newLine (level + 1) ++ part)) ++ (newLine level ++ [right])

theorem bracketed_cons (left right : Char) (level : Nat) (part : List Char)
    (parts : List (List Char)) :
    bracketed left right level (part :: parts) =
      left :: (newLine (level + 1) ++ (part ++ further right level parts)) := by
  have row : ∀ (first : List Char) (parts : List (List Char)),
      [','].intercalate (first :: parts.map (newLine (level + 1) ++ ·)) =
        first ++ parts.flatMap fun part => ',' :: (newLine (level + 1) ++ part) := by
    intro first parts
    induction parts generalizing first with
    | nil => simp
    | cons next parts ih =>
        rw [List.map_cons, List.intercalate_cons_cons, ih]
        simp
  rw [bracketed, List.map_cons, row]
  simp [further]

theorem head?_bracketed (left right : Char) (level : Nat) (parts : List (List Char)) :
    (bracketed left right level parts).head? = some left := by
  simp [bracketed]

theorem parted_further (right : Char) (level : Nat) (parts : List (List Char))
    (rest : List Char) : Parted (further right level parts ++ rest) := by
  intro c first
  cases parts with
  | nil => exact .inr (Option.some.inj first).symm
  | cons part parts => exact .inl (Option.some.inj first).symm

/-- Each part uses up text. -/
theorem length_further (right : Char) (level : Nat) (parts : List (List Char)) :
    parts.length < (further right level parts).length := by
  induction parts with
  | nil => simp [further, newLine]
  | cons part parts ih =>
      simp only [further, List.flatMap_cons, List.length_append, List.length_cons] at ih ⊢
      omega

theorem further_cons (right : Char) (level : Nat) (part : List Char) (parts : List (List Char))
    (rest : List Char) :
    further right level (part :: parts) ++ rest =
      ',' :: (newLine (level + 1) ++ (part ++ (further right level parts ++ rest))) := by
  simp [further]

/-! ## Arrays -/

variable {item : Reader α} {parts : List (List Char)} {values : List α}

theorem nextItem_end {blanks : List Char} (blank : Blank blanks) (first : Bool)
    (rest : List Char) : nextItem first (blanks ++ ']' :: rest) = .done rest := by
  rw [nextItem, blank.skip_cons rfl]
  rfl

theorem nextItem_first {blanks : List Char} (blank : Blank blanks) (rest : List Char) :
    nextItem true (blanks ++ '{' :: rest) = .more ('{' :: rest) := by
  rw [nextItem, blank.skip_cons rfl]
  rfl

theorem nextItem_comma {blanks : List Char} (blank : Blank blanks) (rest : List Char) :
    nextItem false (',' :: (blanks ++ '{' :: rest)) = .more ('{' :: rest) := by
  have item : skipBlank (blanks ++ '{' :: rest) = '{' :: rest := blank.skip_cons rfl rest
  rw [nextItem, skipBlank_cons rfl]
  simp [item]

/-- The items behind the first one are read up to the end of the array. -/
theorem itemsFrom_further (reads : Forall₂ (Reads item) parts values)
    (braced : ∀ part ∈ parts, part.head? = some '{') {fuel : Nat} (enough : parts.length < fuel)
    (items : List α) (level : Nat) (rest : List Char) :
    itemsFrom item fuel false items (further ']' level parts ++ rest) =
      .ok (items.reverse ++ values, rest) := by
  induction reads generalizing fuel items with
  | nil =>
      obtain ⟨fuel, rfl⟩ := Nat.exists_eq_succ_of_ne_zero (Nat.ne_of_gt enough)
      have text : further ']' level [] ++ rest = newLine level ++ ']' :: rest := by
        simp [further]
      rw [itemsFrom, text, nextItem_end (blank_newLine level), List.append_nil]
  | @cons part value parts values reads later ih =>
      obtain ⟨fuel, rfl⟩ := Nat.exists_eq_succ_of_ne_zero (Nat.ne_of_gt (Nat.zero_lt_of_lt enough))
      obtain ⟨cs, rfl⟩ := List.head?_eq_some_iff.1 (braced part List.mem_cons_self)
      have here := reads [] _ .nil (parted_further ']' level parts rest)
      rw [List.nil_append, List.cons_append] at here
      rw [itemsFrom, further_cons, List.cons_append, nextItem_comma (blank_newLine _)]
      simp only [here]
      rw [ih (fun part member => braced part (.tail _ member)) (by simpa using enough)]
      simp

/-- **An array of braced items is read.** -/
theorem array_reads (reads : Forall₂ (Reads item) parts values)
    (braced : ∀ part ∈ parts, part.head? = some '{') (some : parts ≠ []) (level : Nat) :
    Reads (array item) (bracketed '[' ']' level parts) values := by
  intro blanks rest blank _
  cases reads with
  | nil => exact absurd rfl some
  | @cons part value parts values reads later =>
      obtain ⟨cs, rfl⟩ := List.head?_eq_some_iff.1 (braced part List.mem_cons_self)
      have here := reads [] _ .nil (parted_further ']' level parts rest)
      rw [List.nil_append, List.cons_append] at here
      have long := length_further ']' level parts
      rw [array, bracketed_cons, List.cons_append, blank.skip_cons rfl]
      simp only [List.append_assoc, List.cons_append]
      rw [itemsFrom, nextItem_first (blank_newLine _)]
      simp only [here]
      rw [itemsFrom_further later (fun part member => braced part (.tail _ member))
        (by simp only [List.length_append, List.length_cons]; omega)]
      rfl

theorem array_reads_nil (item : Reader α) : Reads (array item) ['[', ']'] [] := by
  intro blanks rest blank _
  rw [array, List.cons_append, blank.skip_cons rfl]
  rfl

/-! ## Records -/

namespace Record

/-- These members, read one after another, make this record of a value some of whose fields have
been read. -/
inductive Fills (r : Record α) : List String → α → List (List Char) → α → Prop where
  | done {seen : List String} {value : α} :
      (∀ f ∈ r.fields, f.required = true → f.name ∈ seen) → Fills r seen value [] value
  | field {seen : List String} {value next final : α} {written : List Char}
      {parts : List (List Char)} (f : Field α) :
      r.fields.find? (fun g => g.name == f.name) = some f → f.name ∉ seen →
      Reads (f.read value) written next → Fills r (f.name :: seen) next parts final →
      Fills r seen value (member f.name written :: parts) final

variable {r : Record α} {value next final : α}

/-- Reading a value puts it into the record. -/
theorem Fills.into {name : String} {required : Bool} {reader : Reader β} {put : α → β → α}
    {part : β} {seen : List String} {written : List Char} {parts : List (List Char)}
    (known : r.fields.find? (fun g => g.name == name) = some ⟨name, required, into reader put⟩)
    (unseen : name ∉ seen) (reads : Reads reader written part)
    (later : r.Fills (name :: seen) (put value part) parts final) :
    r.Fills seen value (member name written :: parts) final :=
  .field ⟨name, required, Json.into reader put⟩ known unseen (into_reads put value reads) later

theorem member_append (name : String) (written rest : List Char) :
    member name written ++ rest =
      '"' :: (name.toList.flatMap escapeChar ++ '"' :: ':' :: ([' '] ++ (written ++ rest))) := by
  simp [member, writeString]

/-- A member is read into its field. -/
theorem named_member {f : Field α} {seen : List String} {written cs rest : List Char}
    (known : r.fields.find? (fun g => g.name == f.name) = some f) (unseen : f.name ∉ seen)
    (reads : Reads (f.read value) written next) (parted : Parted rest) {first : Bool}
    (more : nextMember first cs = .more
      (f.name.toList.flatMap escapeChar ++ '"' :: ':' :: ([' '] ++ (written ++ rest))))
    (fuel : Nat) :
    r.named (fuel + 1) first seen value cs = r.named fuel false (f.name :: seen) next rest := by
  have space : Blank [' '] := by simp [Blank, isBlank]
  have colon : afterColon? (':' :: ([' '] ++ (written ++ rest))) =
      some ([' '] ++ (written ++ rest)) := rfl
  have here := reads [' '] rest space parted
  rw [named, more]
  simp only [stringBody?_escaped, String.ofList_toList, known, colon, here]
  simp [unseen]

/-- The members behind the first one are read up to the end of the object. -/
theorem Fills.named {seen : List String} {parts : List (List Char)}
    (fills : r.Fills seen value parts final) {fuel : Nat} (enough : parts.length < fuel)
    (level : Nat) (rest : List Char) :
    r.named fuel false seen value (further '}' level parts ++ rest) = .ok (final, rest) := by
  induction fills generalizing fuel with
  | @done seen value complete =>
      obtain ⟨fuel, rfl⟩ := Nat.exists_eq_succ_of_ne_zero (Nat.ne_of_gt enough)
      have text : further '}' level [] ++ rest = newLine level ++ '}' :: rest := by
        simp [further]
      have done : nextMember false (further '}' level [] ++ rest) = .done rest := by
        rw [nextMember, text, (blank_newLine level).skip_cons rfl]
        rfl
      have none : r.fields.find? (fun f => f.required && !seen.contains f.name) = none := by
        rw [List.find?_eq_none]
        intro f member
        simpa using complete f member
      rw [Record.named, done]
      simp only [none]
  | @field seen value next final written parts f known unseen reads later ih =>
      obtain ⟨fuel, rfl⟩ := Nat.exists_eq_succ_of_ne_zero (Nat.ne_of_gt (Nat.zero_lt_of_lt enough))
      refine (named_member known unseen reads (parted_further '}' level parts rest) ?_ fuel).trans
        (ih (by simpa using enough))
      have name : ∀ more, skipBlank (newLine (level + 1) ++ '"' :: more) = '"' :: more :=
        (blank_newLine (level + 1)).skip_cons rfl
      rw [further_cons, nextMember, skipBlank_cons rfl, member_append]
      simp [name]

/-- **A record is read from members that fill it.** -/
theorem Fills.read {parts : List (List Char)} (fills : r.Fills [] r.blank parts final)
    (some : parts ≠ []) (level : Nat) : Reads r.read (bracketed '{' '}' level parts) final := by
  intro blanks rest blank _
  cases fills with
  | done => exact absurd rfl some
  | @field _ _ next _ written parts f known unseen reads later =>
      have long := length_further '}' level parts
      have parted := parted_further '}' level parts rest
      rw [Record.read, bracketed_cons, List.cons_append, blank.skip_cons rfl]
      simp only [List.append_assoc]
      refine (named_member known unseen reads parted ?_ _).trans (later.named ?_ level rest)
      · rw [member_append, nextMember, (blank_newLine _).skip_cons rfl]
        rfl
      · simp only [List.length_append]
        omega

end Record

end

end TokenLayout.Json
