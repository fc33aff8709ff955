/-
# TokenLayout.Keyed -- values under keys

A list of values under keys, no key twice, in the order in which the keys came.
What is put under a key that is there takes the place of what it held; a key that
is put anew, or again after it was erased, comes last.
-/
namespace TokenLayout.Keyed

set_option autoImplicit false

variable {α : Type}

/-- Put a value under a key, in the place of the one it has. -/
def put (key : String) (value : α) : List (String × α) → List (String × α)
  | [] => [(key, value)]
  | (k, v) :: rest => if k = key then (key, value) :: rest else (k, v) :: put key value rest

/-- Erase a key with its value. -/
def erase (key : String) (entries : List (String × α)) : List (String × α) :=
  entries.filter fun e => e.1 != key

@[simp] theorem lookup_put_same (key : String) (value : α) (entries : List (String × α)) :
    (put key value entries).lookup key = some value := by
  induction entries with
  | nil => simp [put]
  | cons e rest ih =>
      obtain ⟨k, v⟩ := e
      by_cases h : k = key
      · simp [put, h]
      · have : (key == k) = false := by simp [Ne.symm h]
        simp [put, h, List.lookup_cons, this, ih]

theorem lookup_put_other {key other : String} (different : other ≠ key) (value : α)
    (entries : List (String × α)) :
    (put key value entries).lookup other = entries.lookup other := by
  have apart : (other == key) = false := by simp [different]
  induction entries with
  | nil => simp [put, List.lookup_cons, apart]
  | cons e rest ih =>
      obtain ⟨k, v⟩ := e
      by_cases h : k = key
      · subst h
        simp [put, List.lookup_cons, apart]
      · simp only [put, if_neg h, List.lookup_cons, ih]

theorem lookup_erase_same (key : String) (entries : List (String × α)) :
    (erase key entries).lookup key = none := by
  unfold erase
  induction entries with
  | nil => rfl
  | cons e rest ih =>
      obtain ⟨k, v⟩ := e
      by_cases h : k = key
      · simp [h, ih]
      · have apart : (key == k) = false := by simp [Ne.symm h]
        simp [h, List.lookup_cons, apart, ih]

theorem lookup_erase_other {key other : String} (different : other ≠ key)
    (entries : List (String × α)) :
    (erase key entries).lookup other = entries.lookup other := by
  unfold erase
  induction entries with
  | nil => rfl
  | cons e rest ih =>
      obtain ⟨k, v⟩ := e
      by_cases h : k = key
      · have apart : (other == key) = false := by simp [different]
        simp [h, List.lookup_cons, apart, ih]
      · simp [h, List.lookup_cons, ih]

end TokenLayout.Keyed
