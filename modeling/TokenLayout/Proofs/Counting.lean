/-
# TokenLayout.Proofs.Counting -- the end of a region, found by counting

A region scan keeps the openers it has met and not seen closed.  What it finds can be told
without them, by a number at each index: the openers minus the closers from the start of the
region up to that index, itself excluded (`depthAt`).

The openers kept are as many as that number says, and the outermost of them stands at the last
index where it was zero (`Reached`).  `Reached.step` carries this over one token and
`Reached.countedEnd` over a whole scan, so each way for a region to end is told by the numbers
alone (`CountedEnd`), and so are the indexes at which the stop condition is asked.

Main statement: `detectEnd_by_counting`.
-/
import TokenLayout.Proofs.Balance
import Mathlib.Order.Bounds.Basic

namespace TokenLayout

set_option autoImplicit false

/-! ## Openers minus closers -/

/-- Openers minus closers, of all kinds alike. -/
def height (tokens : Tokens) : Int :=
  tokens.countP (fun t => t.tag.isOpener) - tokens.countP (fun t => t.tag.isCloser)

theorem height_append (front back : Tokens) : height (front ++ back) = height front + height back := by
  simp only [height, List.countP_append]
  omega

theorem height_cons (t : Token) (rest : Tokens) : height (t :: rest) = height [t] + height rest :=
  height_append [t] rest

theorem height_opener {t : Token} (opens : t.tag.isOpener = true) : height [t] = 1 := by
  simp [height, opens, Tag.isCloser_of_isOpener opens]

theorem height_closer {t : Token} (closes : t.tag.isCloser = true) : height [t] = -1 := by
  simp [height, closes, Tag.isOpener_of_isCloser closes]

theorem height_alone {t : Token} (alone : t.Alone) : height [t] = 0 := by
  simp [height, alone.1, alone.2]

/-- The depth at an index: the height of the tokens from the start of the region up to there. -/
def depthAt (tokens : Tokens) (start index : Nat) : Int :=
  height ((tokens.take index).drop start)

section

variable {tokens : Tokens} {start index : Nat}

theorem depthAt_of_le (before : index ≤ start) : depthAt tokens start index = 0 := by
  have none : (tokens.take index).drop start = [] := by
    rw [List.drop_eq_nil_iff, List.length_take]
    omega
  rw [depthAt, none]
  rfl

theorem depthAt_of_length_le (beyond : tokens.length ≤ index) :
    depthAt tokens start index = depthAt tokens start tokens.length := by
  rw [depthAt, depthAt, List.take_of_length_le beyond, List.take_length]

theorem depthAt_succ {t : Token} (begun : start ≤ index) (here : tokens[index]? = some t) :
    depthAt tokens start (index + 1) = depthAt tokens start index + height [t] := by
  have inside : index < tokens.length := (List.getElem?_eq_some_iff.1 here).1
  have reaches : start ≤ (tokens.take index).length := by
    rw [List.length_take]
    omega
  rw [depthAt, depthAt, List.take_add_one, here, Option.toList_some,
    List.drop_append_of_le_length reaches, height_append]

/-- A token behind which it is deeper is an opener. -/
theorem isOpener_of_depthAt_lt {t : Token} (begun : start ≤ index)
    (here : tokens[index]? = some t)
    (deeper : depthAt tokens start index < depthAt tokens start (index + 1)) :
    t.tag.isOpener = true := by
  rw [depthAt_succ begun here] at deeper
  rcases t.opens_or_closes_or_alone with opens | closes | alone
  · exact opens
  · rw [height_closer closes] at deeper
    omega
  · rw [height_alone alone] at deeper
    omega

end

/-- The depth is negative nowhere. -/
def NeverBelow (tokens : Tokens) (start : Nat) : Prop :=
  ∀ index, 0 ≤ depthAt tokens start index

/-- The stop condition holds for the token at an index. -/
def HoldsAt (stop : Condition) (tokens : Tokens) (index : Nat) : Prop :=
  ∃ t ∈ tokens[index]?, stop (tokens.take index).reverse t (tokens.drop (index + 1)) = true

/-- A region can stop at an index: the depth is zero there and has not been negative, and the
stop condition holds. -/
structure CanStop (stop : Condition) (tokens : Tokens) (start index : Nat) : Prop where
  begun : start ≤ index
  level : depthAt tokens start index = 0
  holds : HoldsAt stop tokens index
  above : ∀ i, start ≤ i → i ≤ index → 0 ≤ depthAt tokens start i

/-- What a region's end says of the depths. -/
def CountedEnd (stop : Condition) (tokens : Tokens) (start : Nat) : RegionEnd → Prop
  | .stop j t => tokens[j]? = some t ∧ IsLeast {i | CanStop stop tokens start i} j
  | .implicit j =>
      (∀ i, ¬CanStop stop tokens start i) ∧
        (IsLeast {i | start ≤ i ∧ depthAt tokens start (i + 1) = -1} j ∨
          NeverBelow tokens start ∧ depthAt tokens start tokens.length = 0 ∧ j = tokens.length)
  | .unclosed k o =>
      (∀ i, ¬CanStop stop tokens start i) ∧ NeverBelow tokens start ∧
        depthAt tokens start tokens.length ≠ 0 ∧ tokens[k]? = some o ∧ o.tag.isOpener = true ∧
          IsGreatest {i | start ≤ i ∧ i ≤ tokens.length ∧ depthAt tokens start i = 0} k

section

variable {stop : Condition} {tokens : Tokens} {start : Nat}

/-- The depths leave one end only. -/
theorem CountedEnd.unique {ending ending' : RegionEnd}
    (counted : CountedEnd stop tokens start ending)
    (counted' : CountedEnd stop tokens start ending') : ending = ending' := by
  have never : NeverBelow tokens start → ∀ j,
      ¬IsLeast {i | start ≤ i ∧ depthAt tokens start (i + 1) = -1} j := by
    intro above j least
    have below := least.1.2
    have notBelow := above (j + 1)
    omega
  cases ending with
  | stop j t =>
      obtain ⟨here, least⟩ := counted
      cases ending' with
      | stop j' t' =>
          obtain ⟨here', least'⟩ := counted'
          obtain rfl := least.unique least'
          rw [here] at here'
          rw [Option.some.inj here']
      | implicit j' => exact absurd least.1 (counted'.1 j)
      | unclosed k o => exact absurd least.1 (counted'.1 j)
  | implicit j =>
      obtain ⟨nowhere, ends⟩ := counted
      cases ending' with
      | stop j' t' => exact absurd counted'.2.1 (nowhere j')
      | implicit j' =>
          rcases ends with least | ⟨above, -, rfl⟩ <;>
            rcases counted'.2 with least' | ⟨above', -, rfl⟩
          · rw [least.unique least']
          · exact absurd least (never above' _)
          · exact absurd least' (never above _)
          · rfl
      | unclosed k o =>
          obtain ⟨-, above, open_, -⟩ := counted'
          rcases ends with least | ⟨-, level, -⟩
          · exact absurd least (never above _)
          · exact absurd level open_
  | unclosed k o =>
      obtain ⟨nowhere, above, open_, here, -, greatest⟩ := counted
      cases ending' with
      | stop j' t' => exact absurd counted'.2.1 (nowhere j')
      | implicit j' =>
          rcases counted'.2 with least | ⟨-, level, -⟩
          · exact absurd least (never above _)
          · exact absurd level open_
      | unclosed k' o' =>
          obtain ⟨-, -, -, here', -, greatest'⟩ := counted'
          obtain rfl := greatest.unique greatest'
          rw [here] at here'
          rw [Option.some.inj here']

end

/-! ## The place a scan has come to -/

/-- The region cannot end before an index: up to there the depth is not negative, and where it
is zero the stop condition does not hold. -/
def Calm (stop : Condition) (tokens : Tokens) (start index : Nat) : Prop :=
  ∀ i, start ≤ i → i < index →
    0 ≤ depthAt tokens start i ∧ (depthAt tokens start i = 0 → ¬HoldsAt stop tokens i)

/-- The depth has not come back to zero since this opener. -/
structure OpenSince (tokens : Tokens) (start index k : Nat) (o : Token) : Prop where
  here : tokens[k]? = some o
  begun : start ≤ k
  level : depthAt tokens start k = 0
  above : ∀ i, k < i → i ≤ index → 0 < depthAt tokens start i

/-- What a scan that has come to an index knows of the depths there. -/
structure Reached (tokens : Tokens) (start : Nat) (opened : List (Nat × Token)) (before : Tokens)
    (index : Nat) (rest : Tokens) : Prop where
  split : tokens = before.reverse ++ rest
  counts : index = before.length
  begun : rest ≠ [] → start ≤ index
  depth : depthAt tokens start index = opened.length
  outermost : ∀ p ∈ opened.getLast?, OpenSince tokens start index p.1 p.2

/-- The openers that stay open behind a token, if it closes nothing before the region. -/
def openedAfter (opened : List (Nat × Token)) (index : Nat) (t : Token) :
    Option (List (Nat × Token)) :=
  if t.tag.isOpener then some ((index, t) :: opened)
  else if t.tag.isCloser then opened.tail?
  else some opened

/-- A scan, one token on. -/
theorem Region.scan_cons (stop : Condition) (opened : List (Nat × Token)) (before : Tokens)
    (index : Nat) (t : Token) (after : Tokens) :
    scan stop opened before index (t :: after) =
      if opened.isEmpty && stop before t after then ⟨.stop index t, [index]⟩
      else
        match openedAfter opened index t with
        | none => ⟨.implicit index, [index]⟩
        | some opened' =>
            let later := scan stop opened' (t :: before) (index + 1) after
            ⟨later.ending, (if opened.isEmpty then [index] else []) ++ later.asked⟩ := by
  simp only [scan, openedAfter]
  split
  · rfl
  · by_cases opens : t.tag.isOpener = true
    · cases opened <;> simp [opens]
    · by_cases closes : t.tag.isCloser = true <;> cases opened <;> simp [opens, closes]

section

variable {stop : Condition} {tokens : Tokens} {start : Nat} {opened opened' : List (Nat × Token)}
  {before after : Tokens} {index : Nat} {t : Token}

theorem OpenSince.step {k : Nat} {o : Token} (open_ : OpenSince tokens start index k o)
    (stays : 0 < depthAt tokens start (index + 1)) : OpenSince tokens start (index + 1) k o := by
  refine { open_ with above := fun i behind upTo => ?_ }
  rcases Nat.lt_or_eq_of_le upTo with earlier | rfl
  · exact open_.above i behind (Nat.le_of_lt_succ earlier)
  · exact stays

namespace Reached

theorem ahead (reached : Reached tokens start opened before index after) :
    tokens.drop index = after := by
  rw [reached.split, reached.counts, ← List.length_reverse, List.drop_left]

theorem here (reached : Reached tokens start opened before index (t :: after)) :
    tokens[index]? = some t :=
  (getElem?_of_drop reached.ahead).1

theorem begins (reached : Reached tokens start opened before index (t :: after)) :
    start ≤ index :=
  reached.begun (List.cons_ne_nil t after)

theorem length (reached : Reached tokens start opened before index after) :
    tokens.length = index + after.length := by
  rw [reached.split, reached.counts, List.length_append, List.length_reverse]

theorem holdsAt_iff (reached : Reached tokens start opened before index (t :: after)) :
    HoldsAt stop tokens index ↔ stop before t after = true := by
  have front : tokens.take index = before.reverse := by
    rw [reached.split, reached.counts, ← List.length_reverse, List.take_left]
  have back : tokens.drop (index + 1) = after := (getElem?_of_drop reached.ahead).2
  simp [HoldsAt, reached.here, front, back]

theorem isEmpty_iff (reached : Reached tokens start opened before index after) :
    opened.isEmpty = true ↔ depthAt tokens start index = 0 := by
  rw [reached.depth, List.isEmpty_iff, ← List.length_eq_zero_iff]
  omega

/-- **What is known of the depths stays known one token on.** -/
theorem step (reached : Reached tokens start opened before index (t :: after))
    (next : openedAfter opened index t = some opened') :
    Reached tokens start opened' (t :: before) (index + 1) after := by
  have depth := depthAt_succ reached.begins reached.here
  rw [reached.depth] at depth
  have onward : depthAt tokens start (index + 1) = opened'.length →
      (∀ p ∈ opened'.getLast?, p ∈ opened.getLast? ∨ opened = [] ∧ p = (index, t)) →
        Reached tokens start opened' (t :: before) (index + 1) after := by
    intro depth' outermost
    refine ⟨by simp [reached.split], by simp [reached.counts], fun _ => Nat.le_succ_of_le reached.begins,
      depth', fun p last => ?_⟩
    have some_ : opened' ≠ [] := by
      rintro rfl
      cases last
    have stays : 0 < depthAt tokens start (index + 1) := by
      have longer := List.length_pos_iff.2 some_
      omega
    rcases outermost p last with earlier | ⟨rfl, rfl⟩
    · exact (reached.outermost p earlier).step stays
    · refine ⟨reached.here, reached.begins, reached.depth, fun i behind upTo => ?_⟩
      obtain rfl : i = index + 1 := Nat.le_antisymm upTo behind
      exact stays
  unfold openedAfter at next
  split at next
  · rename_i opens
    obtain rfl := Option.some.inj next
    refine onward (by rw [depth, height_opener opens]; simp) fun p last => ?_
    cases opened with
    | nil => exact .inr ⟨rfl, by simpa using last.symm⟩
    | cons o outer => exact .inl (by simpa using last)
  · rename_i notOpener
    split at next
    · rename_i closes
      cases opened with
      | nil => cases next
      | cons o outer =>
          obtain rfl := Option.some.inj next
          refine onward (by rw [depth, height_closer closes]; simp only [List.length_cons]; omega)
            fun p last => .inl ?_
          cases outer with
          | nil => cases last
          | cons o' outer => simpa using last
    · rename_i notCloser
      obtain rfl := Option.some.inj next
      have alone : t.Alone := ⟨by simpa using notOpener, by simpa using notCloser⟩
      exact onward (by rw [depth, height_alone alone]; simp) fun p last => .inl last

/-- A token that ends the region from outside takes the depth below zero. -/
theorem below (reached : Reached tokens start opened before index (t :: after))
    (outside : openedAfter opened index t = none) :
    depthAt tokens start index = 0 ∧ depthAt tokens start (index + 1) = -1 := by
  have depth := depthAt_succ reached.begins reached.here
  unfold openedAfter at outside
  split at outside
  · cases outside
  · split at outside
    · rename_i closes
      cases opened with
      | nil =>
          have level := reached.depth
          rw [level, height_closer closes] at depth
          exact ⟨level, by simpa using depth⟩
      | cons o outer => cases outside
    · cases outside

/-- Where the scan goes on, the region cannot have ended. -/
theorem calm (reached : Reached tokens start opened before index (t :: after))
    (calm : Calm stop tokens start index)
    (goesOn : (opened.isEmpty && stop before t after) = false) :
    Calm stop tokens start (index + 1) := by
  intro i from_ upTo
  rcases Nat.lt_or_eq_of_le (Nat.le_of_lt_succ upTo) with earlier | rfl
  · exact calm i from_ earlier
  · refine ⟨by rw [reached.depth]; omega, fun level holds => ?_⟩
    rw [reached.isEmpty_iff.2 level, reached.holdsAt_iff.1 holds] at goesOn
    cases goesOn

end Reached

/-! ## The end by the depths -/

namespace Calm

/-- A region that cannot have ended by the end of the stream cannot stop, and its depth is
negative nowhere. -/
theorem whole (calm : Calm stop tokens start tokens.length)
    (last : 0 ≤ depthAt tokens start tokens.length) :
    (∀ i, ¬CanStop stop tokens start i) ∧ NeverBelow tokens start := by
  constructor
  · intro i can
    obtain ⟨t, here, -⟩ := can.holds
    exact (calm i can.begun (List.getElem?_eq_some_iff.1 here).1).2 can.level can.holds
  · intro i
    by_cases begun : start ≤ i
    · by_cases inside : i < tokens.length
      · exact (calm i begun inside).1
      · rwa [depthAt_of_length_le (by omega)]
    · rw [depthAt_of_le (by omega)]

theorem stops (calm : Calm stop tokens start index) (begun : start ≤ index)
    (here : tokens[index]? = some t) (level : depthAt tokens start index = 0)
    (holds : HoldsAt stop tokens index) : CountedEnd stop tokens start (.stop index t) := by
  refine ⟨here, ⟨begun, level, holds, fun i from_ upTo => ?_⟩, fun i can => ?_⟩
  · rcases Nat.lt_or_eq_of_le upTo with earlier | rfl
    · exact (calm i from_ earlier).1
    · rw [level]
  · by_contra earlier
    exact (calm i can.begun (by omega)).2 can.level can.holds

theorem closes (calm : Calm stop tokens start (index + 1)) (begun : start ≤ index)
    (below : depthAt tokens start (index + 1) = -1) :
    CountedEnd stop tokens start (.implicit index) := by
  refine ⟨fun i can => ?_, .inl ⟨⟨begun, below⟩, fun i ⟨from_, negative⟩ => ?_⟩⟩
  · by_cases upTo : i < index + 1
    · exact (calm i can.begun upTo).2 can.level can.holds
    · have notBelow := can.above (index + 1) (by omega) (by omega)
      omega
  · by_contra earlier
    have notBelow := (calm (i + 1) (by omega) (by omega)).1
    omega

theorem finishes (calm : Calm stop tokens start tokens.length)
    (level : depthAt tokens start tokens.length = 0) :
    CountedEnd stop tokens start (.implicit tokens.length) := by
  obtain ⟨nowhere, above⟩ := calm.whole (by omega)
  exact ⟨nowhere, .inr ⟨above, level, rfl⟩⟩

theorem staysOpen {k : Nat} {o : Token} (calm : Calm stop tokens start tokens.length)
    (deep : 0 < depthAt tokens start tokens.length)
    (open_ : OpenSince tokens start tokens.length k o) :
    CountedEnd stop tokens start (.unclosed k o) := by
  obtain ⟨nowhere, above⟩ := calm.whole (by omega)
  have inside : k < tokens.length := (List.getElem?_eq_some_iff.1 open_.here).1
  have deeper := open_.above (k + 1) (by omega) inside
  have opens := isOpener_of_depthAt_lt open_.begun open_.here (by rw [open_.level]; exact deeper)
  refine ⟨nowhere, above, by omega, open_.here, opens, ⟨open_.begun, by omega, open_.level⟩, ?_⟩
  rintro i ⟨-, upTo, level⟩
  by_contra behind
  have stays := open_.above i (by omega) upTo
  omega

end Calm

/-- **A scan ends where the depths say.** -/
theorem Reached.countedEnd {rest : Tokens} (reached : Reached tokens start opened before index rest)
    (calm : Calm stop tokens start index) :
    CountedEnd stop tokens start (Region.scan stop opened before index rest).ending := by
  induction rest generalizing opened before index with
  | nil =>
      obtain rfl : tokens.length = index := reached.length
      unfold Region.scan
      split
      · rename_i k o last
        have some_ : opened ≠ [] := by
          rintro rfl
          cases last
        have deep : 0 < depthAt tokens start tokens.length := by
          have longer := List.length_pos_iff.2 some_
          rw [reached.depth]
          omega
        exact calm.staysOpen deep (reached.outermost (k, o) last)
      · rename_i none
        obtain rfl := List.getLast?_eq_none_iff.1 none
        exact calm.finishes reached.depth
  | cons t after ih =>
      rw [Region.scan_cons]
      split
      · rename_i asks
        rw [Bool.and_eq_true, reached.isEmpty_iff, ← reached.holdsAt_iff] at asks
        exact calm.stops reached.begins reached.here asks.1 asks.2
      · rename_i goesOn
        have calm' := reached.calm calm (by simpa using goesOn)
        split
        · rename_i outside
          exact calm'.closes reached.begins (reached.below outside).2
        · rename_i opened' next
          exact ih (reached.step next) calm'

/-! ## Where the stop condition is asked -/

/-- The last index a scan comes to, in a stream of this length. -/
def RegionEnd.reach (length : Nat) : RegionEnd → Nat
  | .stop i _ => i
  | .implicit i => i
  | .unclosed _ _ => length

theorem Region.le_reach (rest : Tokens) :
    index ≤ (scan stop opened before index rest).ending.reach (index + rest.length) := by
  induction rest generalizing opened before index with
  | nil =>
      unfold scan
      split <;> exact Nat.le_refl index
  | cons t after ih =>
      rw [scan_cons]
      split
      · exact Nat.le_refl index
      · split
        · exact Nat.le_refl index
        · rename_i opened' next
          rw [List.length_cons, ← Nat.succ_add_eq_add_succ]
          exact Nat.le_of_succ_le ih

/-- **A scan asks at every index of depth zero up to the end it finds, and nowhere else.** -/
theorem Reached.asked {rest : Tokens} (reached : Reached tokens start opened before index rest) :
    (Region.scan stop opened before index rest).asked =
      (List.range' index rest.length).filter fun i =>
        depthAt tokens start i = 0 ∧
          i ≤ (Region.scan stop opened before index rest).ending.reach tokens.length := by
  induction rest generalizing opened before index with
  | nil =>
      unfold Region.scan
      split <;> rfl
  | cons t after ih =>
      -- behind the end it finds at this index a scan asks nothing
      have ends : depthAt tokens start index = 0 → [index] =
          (List.range' index (t :: after).length).filter fun i =>
            depthAt tokens start i = 0 ∧ i ≤ index := by
        intro level
        have nothing : ((List.range' (index + 1) after.length).filter fun i =>
            depthAt tokens start i = 0 ∧ i ≤ index) = [] := by
          refine List.filter_eq_nil_iff.2 fun i member asks => ?_
          have behind := (List.mem_range'_1.1 member).1
          simp only [decide_eq_true_eq] at asks
          omega
        rw [List.length_cons, List.range'_succ, List.filter_cons_of_pos (by simp [level]), nothing]
      rw [Region.scan_cons]
      split
      · rename_i asks
        rw [Bool.and_eq_true, reached.isEmpty_iff] at asks
        exact ends asks.1
      · split
        · rename_i outside
          exact ends (reached.below outside).1
        · rename_i opened' next
          have reached' := reached.step next
          have beyond : index ≤ (Region.scan stop opened' (t :: before) (index + 1) after).ending.reach
              tokens.length := by
            rw [reached'.length]
            exact Nat.le_of_succ_le (Region.le_reach after)
          rw [List.length_cons, List.range'_succ, List.filter_cons, ← ih reached']
          by_cases level : depthAt tokens start index = 0
          · simp [level, beyond, reached.isEmpty_iff.2 level]
          · have some_ : opened.isEmpty = false := by
              rw [← Bool.not_eq_true, reached.isEmpty_iff]
              exact level
            simp [level, some_]

end

/-! ## A region of a stream -/

/-- A region begins at depth zero. -/
theorem reached_start (tokens : Tokens) (start : Nat) :
    Reached tokens start [] (tokens.take start).reverse (min start tokens.length)
      (tokens.drop start) := by
  refine ⟨by simp, by simp, fun some_ => ?_, depthAt_of_le (Nat.min_le_left _ _), by simp⟩
  have remain := List.length_pos_iff.2 some_
  rw [List.length_drop] at remain
  omega

theorem countedEnd_iff {stop : Condition} {tokens : Tokens} {start : Nat} {ending : RegionEnd} :
    (detectEnd stop tokens start).ending = ending ↔ CountedEnd stop tokens start ending := by
  have calm : Calm stop tokens start (min start tokens.length) := by
    intro i begun before
    omega
  have counted := (reached_start tokens start).countedEnd calm
  constructor
  · rintro rfl
    exact counted
  · exact counted.unique

theorem asked_detectEnd (stop : Condition) (tokens : Tokens) (start : Nat) :
    (detectEnd stop tokens start).asked =
      (List.range' start (tokens.length - start)).filter fun i =>
        depthAt tokens start i = 0 ∧
          i ≤ (detectEnd stop tokens start).ending.reach tokens.length := by
  have same : List.range' (min start tokens.length) (tokens.length - start) =
      List.range' start (tokens.length - start) := by
    by_cases inside : start ≤ tokens.length
    · rw [Nat.min_eq_left inside]
    · rw [Nat.sub_eq_zero_of_le (by omega)]
      rfl
  rw [detectEnd, (reached_start tokens start).asked, List.length_drop, same]

/-! ## Partners -/

/-- The opener at one index has its partner at the other, with a well nested stream between the
two. -/
def PartnerAt (tokens : Tokens) (i j : Nat) : Prop :=
  ∃ front o inside c rest, tokens = front ++ o :: (inside ++ c :: rest) ∧ front.length = i ∧
    i + 1 + inside.length = j ∧ WellNested inside ∧ o.Partners c

/-- An opener of a balanced stream has its partner. -/
theorem exists_partnerAt {tokens : Tokens} (accepted : ensureBalance tokens = .ok ()) {i : Nat}
    {o : Token} (here : tokens[i]? = some o) (opens : o.tag.isOpener = true) :
    ∃ j, PartnerAt tokens i j := by
  obtain ⟨inside, rfl⟩ := List.getElem?_eq_some_iff.1 here
  obtain ⟨forest, balanced, flat⟩ := (ensureBalance_iff_forest tokens).1 accepted
  have split : tokens = tokens.take i ++ tokens[i] :: tokens.drop (i + 1) := by simp
  rcases balanced.paired (flat.trans split) with alone | ⟨within, c, rest, behind, nested, partners⟩ |
    ⟨earlier, p, within, -, nested, partners⟩
  · rw [alone.1] at opens
    cases opens
  · rw [behind] at split
    have reaches : (tokens.take i).length = i := by
      rw [List.length_take]
      omega
    exact ⟨_, _, _, within, c, rest, split, reaches, rfl, nested, partners⟩
  · rw [Tag.isOpener_of_isCloser partners.brackets.2] at opens
    cases opens

/-- A region that never stops ends at the partner of the opener before it. -/
theorem PartnerAt.detectEnd {tokens : Tokens} {i j : Nat} (partner : PartnerAt tokens i j) :
    (detectEnd (fun _ _ _ => false) tokens (i + 1)).ending = .implicit j := by
  obtain ⟨front, o, inside, c, rest, rfl, rfl, rfl, nested, partners⟩ := partner
  obtain ⟨forest, balanced, rfl⟩ := wellNested_iff_forest.1 nested
  have drops : (front ++ o :: (forest.flatten ++ c :: rest)).drop (front.length + 1) =
      forest.flatten ++ c :: rest :=
    (getElem?_of_drop List.drop_left).2
  have begins : min (front.length + 1) (front ++ o :: (forest.flatten ++ c :: rest)).length =
      front.length + 1 := by
    rw [List.length_append, List.length_cons]
    omega
  have quiet : ∀ before after, forest.Quiet (fun _ _ _ => false) before after :=
    balanced.level.quiet (by simp)
  rw [TokenLayout.detectEnd, drops, begins, Region.ending_quiet balanced.level (quiet _ _),
    Region.ending_closer _ rfl partners.brackets.2]

/-- **The end of a region is found by counting.**  Each way for it to end is told by the depths
from its start on.  The stop condition is asked at the indexes of depth zero up to that end, each
once and in order.  In a stream that passes the balance check, a region that begins behind an
opener and never stops ends at the partner of that opener. -/
theorem detectEnd_by_counting (stop : Condition) (tokens : Tokens) (start : Nat) :
    (∀ ending, (detectEnd stop tokens start).ending = ending ↔
      CountedEnd stop tokens start ending) ∧
    ((detectEnd stop tokens start).asked =
      (List.range' start (tokens.length - start)).filter fun i =>
        depthAt tokens start i = 0 ∧
          i ≤ (detectEnd stop tokens start).ending.reach tokens.length) ∧
    (ensureBalance tokens = .ok () → ∀ i o, tokens[i]? = some o → o.tag.isOpener = true →
      ∃ j, PartnerAt tokens i j ∧
        (detectEnd (fun _ _ _ => false) tokens (i + 1)).ending = .implicit j) := by
  refine ⟨fun ending => countedEnd_iff, asked_detectEnd stop tokens start, ?_⟩
  intro accepted i o here opens
  obtain ⟨j, partner⟩ := exists_partnerAt accepted here opens
  exact ⟨j, partner, partner.detectEnd⟩

/-- `f([x])`, in which the list begins at index 2. -/
def listInCall : Tokens :=
  [.bare .identifier, .bare .callStart, .bare .bracketStart, .bare .identifier, .bare .bracketEnd,
    .bare .callEnd]

theorem detectEnd_by_counting_listInCall :
    ensureBalance listInCall = .ok () ∧
      ∃ j, PartnerAt listInCall 2 j ∧
        (detectEnd (fun _ _ _ => false) listInCall 3).ending = .implicit j :=
  ⟨rfl, (detectEnd_by_counting (fun _ _ _ => false) listInCall 3).2.2 rfl 2 _ rfl rfl⟩

end TokenLayout
