/-
# TokenLayout.Proofs.Settings.Conversions -- what a value stands for

A setting is a truth value, a text, a text that may be missing, or a format, and each of
these is written in more than one way.  The relations here list the ways, kind of value by
kind of value; whatever they do not list stands for nothing.  A value stands for at most
one thing of each sort, and that is the one that is read from it (`truth?_eq_some_iff` and
its like).
-/
import TokenLayout.Settings

namespace TokenLayout

set_option autoImplicit false

/-- Formats are told apart by their names. -/
theorem OutputFormat.ofName?_eq_some_iff {name : String} {f : OutputFormat} :
    OutputFormat.ofName? name = some f ↔ name = f.name := by
  constructor
  · intro found
    have named := List.find?_some found
    exact (beq_iff_eq.1 named).symm
  · rintro rfl
    exact OutputFormat.ofName?_name f

/-- Zero has any sign and any exponent. -/
theorem Binary64.isZero_iff {x : Binary64} :
    x.isZero = true ↔ ∃ negative exponent, x = .finite negative 0 exponent := by
  cases x <;> simp [isZero]

namespace Settings.Value

/-- The value stands for a truth value: it is one, or a number that is or is not zero, or
one of the words for yes and no, in any case. -/
inductive IsTruth : Value → Bool → Prop
  | boolean (b : Bool) : IsTruth (.boolean b) b
  | zero : IsTruth (.integer 0) false
  | number {n : Int} (nonzero : n ≠ 0) : IsTruth (.integer n) true
  | zeroFraction (negative : Bool) (exponent : Int) :
      IsTruth (.fraction (.finite negative 0 exponent)) false
  | fraction {x : Binary64}
      (nonzero : ∀ (negative : Bool) (exponent : Int), x ≠ .finite negative 0 exponent) :
      IsTruth (.fraction x) true
  | yes {s : String} (word : s.toLower ∈ ["true", "on", "yes", "1"]) : IsTruth (.text s) true
  | no {s : String} (word : s.toLower ∈ ["false", "off", "no", "0"]) : IsTruth (.text s) false

/-- The value stands for a text: it is one, or a truth value or a number written out. -/
inductive IsText : Value → String → Prop
  | text (s : String) : IsText (.text s) s
  | yes : IsText (.boolean true) "true"
  | no : IsText (.boolean false) "false"
  | integer (n : Int) : IsText (.integer n) (toString n)
  | fraction (x : Binary64) : IsText (.fraction x) (Decimal.write fractionLayout x)

/-- The value stands for a text that may be missing. -/
inductive IsOptionalText : Value → Option String → Prop
  | missing : IsOptionalText .nothing none
  | text {v : Value} {s : String} (stands : v.IsText s) : IsOptionalText v (some s)

/-- The value stands for a format: it is its name in any case, or a table of which the name
is the only key. -/
inductive IsFormat : Value → OutputFormat → Prop
  | text {s : String} {f : OutputFormat} (name : s.toLower = f.name) : IsFormat (.text s) f
  | key {s : String} {f : OutputFormat} (name : s.toLower = f.name) (v : Value) :
      IsFormat (.table [(s, v)]) f

theorem truth?_eq_some_iff {v : Value} {b : Bool} : v.truth? = some b ↔ v.IsTruth b := by
  constructor
  · intro read
    cases v with
    | boolean c =>
        obtain rfl := Option.some.inj read
        exact .boolean c
    | integer n =>
        obtain rfl := Option.some.inj read
        by_cases zero : n = 0
        · subst zero
          exact .zero
        · simpa [zero] using IsTruth.number zero
    | fraction x =>
        obtain rfl := Option.some.inj read
        by_cases zero : x.isZero = true
        · obtain ⟨negative, exponent, rfl⟩ := Binary64.isZero_iff.1 zero
          exact .zeroFraction negative exponent
        · rw [Bool.eq_false_iff.2 zero]
          exact .fraction fun negative exponent same =>
            zero (Binary64.isZero_iff.2 ⟨negative, exponent, same⟩)
    | text s =>
        rw [truth?] at read
        split at read
        · obtain rfl := Option.some.inj read
          exact .yes (List.contains_iff_mem.1 ‹_›)
        · split at read
          · obtain rfl := Option.some.inj read
            exact .no (List.contains_iff_mem.1 ‹_›)
          · cases read
    | nothing | list | table => cases read
  · intro stands
    cases stands with
    | boolean | zero | zeroFraction => rfl
    | number nonzero => simpa [truth?] using nonzero
    | @fraction x nonzero =>
        have notZero : x.isZero = false := by
          rw [Bool.eq_false_iff]
          rintro zero
          obtain ⟨negative, exponent, same⟩ := Binary64.isZero_iff.1 zero
          exact nonzero negative exponent same
        rw [truth?, notZero, Bool.not_false]
    | yes word => rw [truth?, if_pos (List.contains_iff_mem.2 word)]
    | @no s word =>
        -- a word for no is none for yes
        have other : ¬["true", "on", "yes", "1"].contains s.toLower := by
          simp only [List.mem_cons, List.not_mem_nil, or_false] at word
          obtain word | word | word | word := word <;> rw [word] <;> decide
        rw [truth?, if_neg other, if_pos (List.contains_iff_mem.2 word)]

theorem text?_eq_some_iff {v : Value} {s : String} : v.text? = some s ↔ v.IsText s := by
  constructor
  · intro read
    cases v with
    | boolean b =>
        obtain rfl := Option.some.inj read
        cases b
        · exact .no
        · exact .yes
    | text | integer | fraction =>
        obtain rfl := Option.some.inj read
        constructor
    | nothing | list | table => cases read
  · rintro (_ | _) <;> rfl

theorem optionalText?_of_ne_nothing {v : Value} (there : v ≠ .nothing) :
    v.optionalText? = v.text?.map some := by
  cases v with
  | nothing => exact absurd rfl there
  | _ => rfl

theorem optionalText?_eq_some_iff {v : Value} {s : Option String} :
    v.optionalText? = some s ↔ v.IsOptionalText s := by
  constructor
  · intro read
    by_cases missing : v = .nothing
    · subst missing
      obtain rfl := Option.some.inj read
      exact .missing
    · rw [optionalText?_of_ne_nothing missing] at read
      obtain ⟨t, text, rfl⟩ := Option.map_eq_some_iff.1 read
      exact .text (text?_eq_some_iff.1 text)
  · intro stands
    cases stands with
    | missing => rfl
    | text stands =>
        have there : v ≠ .nothing := by
          rintro rfl
          cases stands
        rw [optionalText?_of_ne_nothing there, text?_eq_some_iff.2 stands]
        rfl

theorem format?_eq_some_iff {v : Value} {f : OutputFormat} :
    v.format? = some f ↔ v.IsFormat f := by
  constructor
  · intro read
    rw [format?.eq_def] at read
    split at read
    · exact .text (OutputFormat.ofName?_eq_some_iff.1 read)
    · exact .key (OutputFormat.ofName?_eq_some_iff.1 read) _
    · cases read
  · rintro (name | name) <;> exact OutputFormat.ofName?_eq_some_iff.2 name

end Settings.Value

end TokenLayout
