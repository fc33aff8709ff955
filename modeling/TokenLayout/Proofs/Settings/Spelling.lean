/-
# TokenLayout.Proofs.Settings.Spelling -- keys, in any case

Capitals make no difference in a key.  A key that spells a path leads to what is under its
first part, and if there are more parts, on from there: it is then the first part with `.`
or `[` and something more (`LeadsOn`).  Any other key leads to what is under itself, and no
further (`exists_setSpelled`).
-/
import Mathlib
import TokenLayout.Settings.Layers

namespace TokenLayout.Settings

set_option autoImplicit false

/-! ## Small letters -/

@[simp] theorem toLower_toLower (s : String) : s.toLower.toLower = s.toLower := by
  have twice : Char.toLower ∘ Char.toLower = Char.toLower := funext Char.toLower_toLower_eq_toLower
  change (s.map Char.toLower).map Char.toLower = s.map Char.toLower
  rw [String.map_map, twice]

@[simp] theorem toList_toLower (s : String) : s.toLower.toList = s.toList.map Char.toLower :=
  String.toList_map

namespace KeyPath

/-- What is a key character in small is one in capitals. -/
theorem isKeyChar_of_toLower {c : Char} (small : isKeyChar c.toLower = true) :
    isKeyChar c = true := by
  by_cases capital : c.isUpper = true
  · simp [isKeyChar, Char.isAlphanum, Char.isAlpha, capital]
  · rwa [Char.toLower_eq_of_not_isUpper capital] at small

/-! ## Where a key leads -/

/-- A key that leads on, from what is under the first part of it. -/
def LeadsOn (first key : String) : Prop :=
  ∃ rest, key.toLower = first ++ "." ++ rest ∨ key.toLower = first ++ "[" ++ rest

end KeyPath

open KeyPath (LeadsOn isKeyChar)

theorem not_leadsOn {first key : String} (chars : ∀ c ∈ key.toLower.toList, isKeyChar c = true) :
    ¬LeadsOn first key := by
  rintro ⟨rest, dot | bracket⟩
  · rw [dot] at chars
    exact absurd (chars '.' (by simp)) (by decide)
  · rw [bracket] at chars
    exact absurd (chars '[' (by simp)) (by decide)

/-- Further steps are spelled behind a dot or a bracket. -/
theorem exists_mark_of_steps? {fuel : Nat} {c : Char} {cs : List Char} {path : KeyPath}
    (spelled : KeyPath.steps? fuel (c :: cs) = some path) : (c = '.' ∨ c = '[') ∧ path ≠ [] := by
  rw [KeyPath.steps?.eq_def] at spelled
  split at spelled
  · cases spelled
  · cases ‹c :: cs = []›
  · refine ⟨.inl (List.cons.inj ‹_›).1, ?_⟩
    obtain ⟨-, later⟩ := Option.ite_none_left_eq_some.1 spelled
    obtain ⟨rest, -, whole⟩ := Option.bind_eq_some_iff.1 later
    exact Option.some.inj whole ▸ List.cons_ne_nil _ rest
  · refine ⟨.inr (List.cons.inj ‹_›).1, ?_⟩
    obtain ⟨index, -, later⟩ := Option.bind_eq_some_iff.1 spelled
    split at later
    · obtain ⟨rest, -, whole⟩ := Option.bind_eq_some_iff.1 later
      exact Option.some.inj whole ▸ List.cons_ne_nil _ rest
    · cases later
  · cases spelled

/-- The path that a key spells is the key itself in small letters, or leads on. -/
theorem exists_key_of_ofText? {key : String} {path : KeyPath}
    (spelled : KeyPath.ofText? key = some path) : ∃ first rest, path = .key first :: rest ∧
      (rest = [] ∧ first = key.toLower ∨ rest ≠ [] ∧ LeadsOn first key) := by
  have whole := key.toList.takeWhile_append_dropWhile (p := isKeyChar)
  rw [KeyPath.ofText?, KeyPath.steps?] at spelled
  obtain ⟨-, later⟩ := Option.ite_none_left_eq_some.1 spelled
  obtain ⟨rest, behind, path_eq⟩ := Option.bind_eq_some_iff.1 later
  refine ⟨_, rest, (Option.some.inj path_eq).symm, ?_⟩
  cases left : key.toList.dropWhile isKeyChar with
  | nil =>
      rw [left] at behind
      rw [left, List.append_nil] at whole
      rw [whole, String.ofList_toList]
      exact .inl ⟨(Option.some.inj behind).symm, rfl⟩
  | cons c more =>
      rw [left] at behind whole
      obtain ⟨mark, goesOn⟩ := exists_mark_of_steps? behind
      have small : key.toLower =
          (String.ofList (key.toList.takeWhile isKeyChar)).toLower ++ String.singleton c ++
            String.ofList (more.map Char.toLower) := by
        have same : c.toLower = c := by obtain rfl | rfl := mark <;> rfl
        apply String.toList_injective
        rw [toList_toLower, ← congrArg (List.map Char.toLower) whole]
        simp [same]
      refine .inr ⟨goesOn, String.ofList (more.map Char.toLower), ?_⟩
      obtain rfl | rfl := mark
      · exact .inl small
      · exact .inr small

/-- **A key leads to what is under itself, or on from the first part of it.** -/
theorem exists_setSpelled (key : String) : ∃ first rest,
    (∀ root v : Value, root.setSpelled key v = Value.setAt v root (.key first :: rest)) ∧
      (rest = [] ∧ first.toLower = key.toLower ∨ rest ≠ [] ∧ LeadsOn first key) := by
  cases spelled : KeyPath.ofText? key with
  | none =>
      exact ⟨key, [], fun root v => by rw [Value.setSpelled, spelled, Value.setAt], .inl ⟨rfl, rfl⟩⟩
  | some path =>
      obtain ⟨first, rest, rfl, leads⟩ := exists_key_of_ofText? spelled
      refine ⟨first, rest, fun root v => by rw [Value.setSpelled, spelled], leads.imp_left ?_⟩
      rintro ⟨whole, rfl⟩
      exact ⟨whole, toLower_toLower key⟩

/-! ## Two parts -/

/-- The steps that a name after a dot spells, with what is behind it. -/
theorem steps?_dot {fuel : Nat} {name : List Char} (named : name ≠ [])
    (chars : ∀ c ∈ name, isKeyChar c = true) {behind : List Char}
    (ends : behind.head?.all (!isKeyChar ·)) :
    KeyPath.steps? (fuel + 1) ('.' :: (name ++ behind)) =
      (KeyPath.steps? fuel behind).map (.key (String.ofList name).toLower :: ·) := by
  have stop : behind.takeWhile isKeyChar = [] ∧ behind.dropWhile isKeyChar = behind := by
    cases behind with
    | nil => exact ⟨rfl, rfl⟩
    | cons c rest =>
        have other : isKeyChar c = false := by simpa using ends
        simp [other]
  rw [KeyPath.steps?, List.takeWhile_append_of_pos chars, List.dropWhile_append_of_pos chars,
    stop.1, stop.2, List.append_nil, if_neg (by simpa using named)]
  cases KeyPath.steps? fuel behind <;> rfl

/-- Characters that are those of a name but for case. -/
theorem spells_of_map_toLower {cs : List Char} {name : String}
    (same : cs.map Char.toLower = name.toList) (chars : ∀ c ∈ name.toList, isKeyChar c = true) :
    (∀ c ∈ cs, isKeyChar c = true) ∧ (String.ofList cs).toLower = name := by
  refine ⟨fun c member => ?_, String.toList_injective ?_⟩
  · exact KeyPath.isKeyChar_of_toLower (chars _ (same ▸ List.mem_map_of_mem member))
  · rw [toList_toLower, String.toList_ofList, same]

/-- No capital is a dot in small. -/
theorem eq_dot_of_toLower {c : Char} (small : c.toLower = '.') : c = '.' := by
  by_cases capital : c.isUpper = true
  · have letter : c.toLower.isLower = true := by simp [Char.isAlpha, capital]
    rw [small] at letter
    cases letter
  · rwa [Char.toLower_eq_of_not_isUpper capital] at small

/-- A key of two parts spells the path through both, in any case. -/
theorem ofText?_of_toLower {key first second : String} (first_ne : first ≠ "")
    (second_ne : second ≠ "") (firstChars : ∀ c ∈ first.toList, isKeyChar c = true)
    (secondChars : ∀ c ∈ second.toList, isKeyChar c = true)
    (small : key.toLower = first ++ "." ++ second) :
    KeyPath.ofText? key = some [.key first, .key second] := by
  have split : key.toList.map Char.toLower = first.toList ++ ('.' :: second.toList) := by
    rw [← toList_toLower, small]
    simp
  obtain ⟨before, behind, whole, before_eq, behind_eq⟩ := List.map_eq_append_iff.1 split
  obtain ⟨dot, after, rfl, dot_eq, after_eq⟩ := List.map_eq_cons_iff.1 behind_eq
  obtain rfl := eq_dot_of_toLower dot_eq
  obtain ⟨beforeChars, before_small⟩ := spells_of_map_toLower before_eq firstChars
  obtain ⟨afterChars, after_small⟩ := spells_of_map_toLower after_eq secondChars
  have before_ne : before ≠ [] := by
    rintro rfl
    exact first_ne (String.toList_injective before_eq.symm)
  have after_ne : after ≠ [] := by
    rintro rfl
    exact second_ne (String.toList_injective after_eq.symm)
  have long : key.length ≠ 0 := by simp [← String.length_toList, whole]
  obtain ⟨fuel, long⟩ := Nat.exists_eq_succ_of_ne_zero long
  have last : KeyPath.steps? (fuel + 1 + 1) ('.' :: (after ++ [])) = _ :=
    steps?_dot after_ne afterChars rfl
  rw [List.append_nil, KeyPath.steps?] at last
  rw [KeyPath.ofText?, whole, steps?_dot before_ne beforeChars rfl, long, last, before_small,
    after_small]
  rfl

end TokenLayout.Settings
