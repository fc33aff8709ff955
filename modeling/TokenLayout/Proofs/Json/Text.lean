/-
# TokenLayout.Proofs.Json.Text -- written strings and numbers read back

A string is written character by character, and each escape stands for the character it
was written for (`stringChar?_escapeChar`).  So the inside of a written string is read up
to the quote that ends it, whatever characters it holds.

A number is read up to the first character that cannot go on with it.  The decimal digits
of a number below `2 ^ 64` are gathered without loss (`gather_toDigits`).  Behind a value
of written text comes a comma, a line feed or nothing (`Parted`), and none of these goes
on with a number.
-/
import Mathlib.Algebra.GroupWithZero.Nat
import Mathlib.Tactic.SplitIfs
import TokenLayout.Json.Text

namespace TokenLayout.Json

set_option autoImplicit false

open Text (hexDigit?)

/-! ## Strings -/

/-- The two digits of a numeric escape say the character. -/
theorem numericEscape?_digits {c : Char} (control : c.toNat < 0x20) (rest : List Char) :
    numericEscape? ('0' :: '0' :: Nat.digitChar (c.toNat / 16) :: Nat.digitChar (c.toNat % 16) ::
      rest) = some (c, rest) := by
  have digit : ∀ d < 16, hexDigit? (Nat.digitChar d) = some d := by decide
  have high := digit (c.toNat / 16) (by omega)
  have low := digit (c.toNat % 16) (by omega)
  have zero : hexDigit? '0' = some 0 := rfl
  have number : ((0 * 16 + 0) * 16 + c.toNat / 16) * 16 + c.toNat % 16 = c.toNat := by omega
  have notHigh : isHighSurrogate c.toNat = false := by
    simp only [isHighSurrogate, Bool.and_eq_false_iff, decide_eq_false_iff_not]
    omega
  have notLow : isLowSurrogate c.toNat = false := by
    simp only [isLowSurrogate, Bool.and_eq_false_iff, decide_eq_false_iff_not]
    omega
  have read : hex4? ('0' :: '0' :: Nat.digitChar (c.toNat / 16) ::
      Nat.digitChar (c.toNat % 16) :: rest) = some (c.toNat, rest) := by
    simp only [hex4?, zero, high, low, Option.bind_eq_bind, Option.bind_some, number]
    rfl
  simp [numericEscape?, read, notHigh, notLow]

/-- A written character is read as the character, and does not end the string. -/
theorem stringChar?_escapeChar (c : Char) (rest : List Char) :
    stringChar? (escapeChar c ++ rest) = some (c, rest) ∧
      (escapeChar c ++ rest).head? ≠ some '"' := by
  unfold escapeChar
  split_ifs with quote backslash backspace formFeed lineFeed carriage tab control
  · exact ⟨by rw [quote]; rfl, by simp⟩
  · exact ⟨by rw [backslash]; rfl, by simp⟩
  · exact ⟨by rw [backspace]; rfl, by simp⟩
  · exact ⟨by rw [formFeed]; rfl, by simp⟩
  · exact ⟨by rw [lineFeed]; rfl, by simp⟩
  · exact ⟨by rw [carriage]; rfl, by simp⟩
  · exact ⟨by rw [tab]; rfl, by simp⟩
  · exact ⟨numericEscape?_digits control rest, by simp⟩
  · refine ⟨?_, by simp [quote]⟩
    rw [List.singleton_append, stringChar?.eq_def]
    split <;> simp_all

/-- **A written string is read up to its closing quote.** -/
theorem stringBody?_escaped (cs rest : List Char) :
    stringBody? (cs.flatMap escapeChar ++ '"' :: rest) = some (cs, rest) := by
  induction cs with
  | nil => rw [stringBody?]; rfl
  | cons c cs ih =>
      obtain ⟨first, notQuote⟩ := stringChar?_escapeChar c (cs.flatMap escapeChar ++ '"' :: rest)
      rw [List.flatMap_cons, List.append_assoc, stringBody?, if_neg notQuote]
      split
      · rename_i none
        rw [first] at none
        cases none
      · rename_i d after some
        rw [first] at some
        cases some
        rw [ih]

/-! ## Numbers -/

/-- What comes next does not go on with a value: a comma, a line feed, or nothing. -/
def Parted (rest : List Char) : Prop :=
  ∀ c ∈ rest.head?, c = ',' ∨ c = '\n'

/-- Only the digits of zero begin with a zero. -/
theorem head?_toDigits {n : Nat} (positive : 0 < n) : (Nat.toDigits 10 n).head? ≠ some '0' := by
  induction n using Nat.strongRecOn with
  | _ n ih =>
      by_cases small : n < 10
      · have notZero : ∀ d < 10, 0 < d → Nat.digitChar d ≠ '0' := by decide
        rw [Nat.toDigits_of_lt_base small]
        simpa using notZero n small positive
      · obtain ⟨d, ds, digits⟩ := List.exists_cons_of_ne_nil
          (Nat.toDigits_ne_nil (n := n / 10) (b := 10))
        have earlier := ih (n / 10) (by omega) (by omega)
        rw [Nat.toDigits_of_base_le (by decide) (by omega)]
        rw [digits] at earlier ⊢
        simpa using earlier

theorem gather_append {n m : Nat} {ds more : List Char} (all : gather n ds = (m, [])) :
    gather n (ds ++ more) = gather m more := by
  induction ds generalizing n with
  | nil =>
      cases all
      rfl
  | cons d ds ih =>
      simp only [gather] at all
      split_ifs at all with fits
      · simp only [List.cons_append, gather, if_pos fits]
        exact ih all
      · cases all

/-- The digits of a number below `2 ^ 64` all fit. -/
theorem gather_toDigits {n : Nat} (fits : n < 2 ^ 64) :
    gather 0 (Nat.toDigits 10 n) = (n, []) := by
  have digit : ∀ d < 10, (Nat.digitChar d).toNat - '0'.toNat = d := by decide
  have one : ∀ m d : Nat, d < 10 → 10 * m + d < 2 ^ 64 →
      gather m [Nat.digitChar d] = (10 * m + d, []) := by
    intro m d small sum
    simp only [gather, digit d small]
    rw [if_pos (by simpa using sum)]
  induction n using Nat.strongRecOn with
  | _ n ih =>
      by_cases small : n < 10
      · rw [Nat.toDigits_of_lt_base small, one 0 n small (by omega), Nat.mul_zero, Nat.zero_add]
      · have front := ih (n / 10) (by omega) (by omega)
        have same : 10 * (n / 10) + n % 10 = n := by omega
        rw [Nat.toDigits_of_base_le (by decide) (by omega), gather_append front,
          one _ _ (by omega) (by omega), same]

/-- **The digits of a number read as the number.** -/
theorem number?_toDigits {n : Nat} (fits : n < 2 ^ 64) {rest : List Char} (parted : Parted rest) :
    number? false (Nat.toDigits 10 n ++ rest) = some (.natural n, rest) := by
  have members : ∀ c ∈ Nat.toDigits 10 n, c.isDigit = true :=
    fun c member => Nat.isDigit_of_mem_toDigits (by decide) (by decide) member
  have stops : rest.takeWhile Char.isDigit = [] ∧ rest.dropWhile Char.isDigit = rest := by
    cases rest with
    | nil => exact ⟨rfl, rfl⟩
    | cons c rest => rcases parted c rfl with rfl | rfl <;> exact ⟨rfl, rfl⟩
  have front : digits (Nat.toDigits 10 n ++ rest) = Nat.toDigits 10 n := by
    rw [digits, List.takeWhile_append_of_pos members, stops.1, List.append_nil]
  have back : afterDigits (Nat.toDigits 10 n ++ rest) = rest := by
    rw [afterDigits, List.dropWhile_append_of_pos members, stops.2]
  have finish : afterWhole? false n 0 rest = some (.natural n, rest) := by
    cases rest with
    | nil => rfl
    | cons c rest => rcases parted c rfl with rfl | rfl <;> rfl
  rw [number?, front, back]
  split
  · rename_i none
    exact absurd none Nat.toDigits_ne_nil
  · rename_i leading
    -- a zero with more digits behind it would be the digits of a positive number
    rcases Nat.eq_zero_or_pos n with rfl | positive
    · cases leading
    · have notZero := head?_toDigits positive
      rw [leading] at notZero
      exact absurd rfl notZero
  · simp only [gather_toDigits fits]
    exact finish

end TokenLayout.Json
