/-
# TokenLayout.Proofs.Decisions -- conditionals are decided one by one

Where a condition ends is read off the stream behind its keyword, and in that stream
the pass does nothing but retag conditionals.  No end of a condition depends on which
of them have been retagged: none of the four tags opens or closes a pair, ends a
condition, or turns the block behind it into a one-line body (`conditionEnd_trails`).

So what becomes of a conditional is settled by the stream as the pass finds it.  A
stream in which some of its tokens have been decided and the others have not is `partly`
decided; deciding one more leads to the next such stream (`visitAt_partly`), in
whatever order they are taken (`foldlM_visitAt_partly`), and the pass takes them from
left to right (`markTrailing_eq_foldlM`).  Main statement: `markTrailing_decides`.
-/
import TokenLayout.Proofs.Convergence
import TokenLayout.Proofs.Strays

namespace TokenLayout

set_option autoImplicit false

open List (Forall₂)

/-- A region that ends here has reached the body of its conditional: a block opener that was
read from source, or is explicit, or was put there for a `then`. -/
def RegionEnd.OpensBody : RegionEnd → Prop
  | .stop _ t => t.tag = .indent ∧
      (t.provenance = .source ∨ t.provenance = .explicit ∨ t.fromThen = true)
  | _ => False

instance (ending : RegionEnd) : Decidable ending.OpensBody :=
  match ending with
  | .stop _ t => inferInstanceAs (Decidable (t.tag = .indent ∧
      (t.provenance = .source ∨ t.provenance = .explicit ∨ t.fromThen = true)))
  | .implicit _ => inferInstanceAs (Decidable False)
  | .unclosed _ _ => inferInstanceAs (Decidable False)

namespace Conditionals

/-! ## Decisions -/

/-- How the condition behind the token at an index ends. -/
def conditionEnd (tokens : Tokens) (i : Nat) : RegionEnd :=
  (detectEnd endsCondition tokens (i + 1)).ending

/-- What the token at an index of a stream becomes: a conditional whose condition does not reach
a body of its own trails. -/
def decided (tokens : Tokens) (i : Nat) (t : Token) : Token :=
  match trailing? t.tag with
  | some tag => if (conditionEnd tokens i).OpensBody then t else t.retag tag
  | none => t

/-- At this index stands a conditional whose condition leaves an opener open. -/
def StaysOpen (tokens : Tokens) (i : Nat) (opener : Token) : Prop :=
  ∃ t ∈ tokens[i]?, (t.tag = .ifWord ∨ t.tag = .unlessWord) ∧
    ∃ k, conditionEnd tokens i = .unclosed k opener

/-- The first opener at depth zero behind an index that nothing closes. -/
def OutermostOpen (tokens : Tokens) (i : Nat) (opener : Token) : Prop :=
  ∃ (between : Forest Token) (rest : Tokens), between.Level ∧ opener.tag.isOpener = true ∧
    tokens.drop (i + 1) = between.flatten ++ opener :: rest ∧ strays rest = []

/-- Visit one index of a stream. -/
def visitAt (tokens : Tokens) (i : Nat) : Except Fault Tokens :=
  match tokens.drop i with
  | [] => .ok tokens
  | t :: after => (visit (tokens.take i).reverse t after).map fun moved => moved.1.tokens

theorem StaysOpen.outermost {tokens : Tokens} {i : Nat} {opener : Token}
    (stays : StaysOpen tokens i opener) : OutermostOpen tokens i opener := by
  obtain ⟨_, -, -, k, ends⟩ := stays
  obtain ⟨between, rest, level, opens, split, -, stays⟩ := Region.exists_of_unclosed ends
  exact ⟨between, rest, level, opens, split, stays⟩

theorem trailing?_isSome_iff {tag : Tag} :
    (trailing? tag).isSome = true ↔ tag = .ifWord ∨ tag = .unlessWord := by
  cases tag <;> simp [trailing?]

theorem decided_trails (tokens : Tokens) (i : Nat) (t : Token) : Trails t (decided tokens i t) := by
  unfold decided
  split
  · rename_i tag keyword
    split
    · exact .inl rfl
    · rcases trailing?_cases keyword with ⟨word, rfl⟩ | ⟨word, rfl⟩
      · exact .inr (.inl ⟨word, rfl⟩)
      · exact .inr (.inr ⟨word, rfl⟩)
  · exact .inl rfl

theorem decided_eq_self {t : Token} (other : trailing? t.tag = none) (tokens : Tokens) (i : Nat) :
    decided tokens i t = t := by
  rw [decided, other]

/-- A decision stands. -/
theorem decided_decided (tokens : Tokens) (i : Nat) (t : Token) :
    decided tokens i (decided tokens i t) = decided tokens i t := by
  rcases decided_trails tokens i t with same | ⟨-, retagged⟩ | ⟨-, retagged⟩
  · rw [same, same]
  all_goals
    rw [retagged]
    exact decided_eq_self rfl tokens i

/-! ## Ends of conditions -/

/-- A conditional and what it may become are one to the end of a condition before it. -/
theorem Trails.classes {t u : Token} (trails : Trails t u) :
    u.tag.isSingleLiner = t.tag.isSingleLiner ∧
      (u = t ∨ t.Alone ∧ u.Alone ∧
        ∀ before after, endsCondition before t after = false ∧
          endsCondition before u after = false) := by
  rcases trails with rfl | ⟨word, rfl⟩ | ⟨word, rfl⟩
  · exact ⟨rfl, .inl rfl⟩
  all_goals
    simp only [Token.Alone, endsCondition, Token.retag, word]
    exact ⟨rfl, .inr ⟨⟨rfl, rfl⟩, ⟨rfl, rfl⟩, fun _ _ => ⟨trivial, trivial⟩⟩⟩

theorem scan_trails {tokens tokens' : Tokens} (same : Forall₂ Trails tokens tokens')
    {previous previous' : Token} (prior : Trails previous previous')
    (opened : List (Nat × Token)) (before before' : Tokens) (index : Nat) :
    (Region.scan endsCondition opened (previous' :: before') index tokens').ending =
      (Region.scan endsCondition opened (previous :: before) index tokens).ending := by
  induction same generalizing previous previous' opened before before' index with
  | nil => simp only [Region.scan]
  | @cons t u rest rest' trails _ ih =>
      have later := fun opened =>
        ih trails opened (previous :: before) (previous' :: before') (index + 1)
      rcases trails.classes.2 with rfl | ⟨alone, alone', silent⟩
      · have asked : endsCondition (previous' :: before') u rest' =
            endsCondition (previous :: before) u rest := by
          simp only [endsCondition, List.head?_cons, Option.any_some, prior.classes.1]
        cases opened <;> simp only [Region.ending_cons, asked, later]
      · simp only [Region.ending_cons, (silent _ _).1, (silent _ _).2, alone.1, alone.2, alone'.1,
          alone'.2, Bool.and_false, Bool.false_eq_true, if_false, later]

/-- **Where a condition ends does not depend on which conditionals have been retagged.** -/
theorem conditionEnd_trails {tokens tokens' : Tokens} (same : Forall₂ Trails tokens tokens')
    {i : Nat} (within : i < tokens.length) :
    conditionEnd tokens' i = conditionEnd tokens i := by
  have within' : i < tokens'.length := same.length_eq ▸ within
  have prior : Trails tokens[i] tokens'[i] := same.get within within'
  have behind : Forall₂ Trails (tokens.drop (i + 1)) (tokens'.drop (i + 1)) :=
    List.forall₂_drop (i + 1) same
  rw [conditionEnd, conditionEnd, detectEnd, detectEnd, ← same.length_eq,
    List.take_succ_eq_append_getElem within, List.take_succ_eq_append_getElem within',
    List.reverse_concat, List.reverse_concat]
  exact scan_trails behind prior [] _ _ _

/-! ## One visit -/

theorem exists_of_getElem? {tokens : Tokens} {i : Nat} {t : Token} (at_ : tokens[i]? = some t) :
    ∃ front rest, tokens = front ++ t :: rest ∧ front.length = i := by
  obtain ⟨within, rfl⟩ := List.getElem?_eq_some_iff.1 at_
  exact ⟨tokens.take i, tokens.drop (i + 1), by simp, List.length_take_of_le (Nat.le_of_lt within)⟩

theorem conditionEnd_append (front : Tokens) (t : Token) (rest : Tokens) :
    conditionEnd (front ++ t :: rest) front.length =
      (Region.after endsCondition [t] rest).ending.shift (front.length + 1) := by
  have cut : front ++ t :: rest = (front ++ [t]) ++ rest := by simp
  have long : (front ++ [t]).length = front.length + 1 := by simp
  have short : min (front.length + 1) ((front ++ [t]) ++ rest).length = front.length + 1 := by
    simp
  rw [conditionEnd, detectEnd, cut, short, ← long, List.take_left, List.drop_left,
    List.reverse_concat, scan_congr [] t front.reverse [] _ rest, Region.after]
  exact Region.ending_shift _ [] [t] 0 rest

theorem visitAt_append (front : Tokens) (t : Token) (rest : Tokens) :
    visitAt (front ++ t :: rest) front.length =
      (settle t rest).map fun u => front ++ u :: rest := by
  rw [visitAt, List.drop_left, List.take_left]
  simp only [visit_eq_settle]
  cases settle t rest with
  | error fault => rfl
  | ok u => simp [Except.map, Cursor.tokens]

/-- A visit fails where a condition leaves an opener open. -/
theorem visitAt_open {tokens : Tokens} {i : Nat} {opener : Token}
    (stays : StaysOpen tokens i opener) : visitAt tokens i = .error (.ofUnclosed opener) := by
  obtain ⟨t, at_, word, k, ends⟩ := stays
  obtain ⟨front, rest, rfl, rfl⟩ := exists_of_getElem? at_
  obtain ⟨tag, keyword⟩ := Option.isSome_iff_exists.1 (trailing?_isSome_iff.2 word)
  have open_ : isTrailing [t] rest = .error (.ofUnclosed opener) := by
    rw [conditionEnd_append] at ends
    rw [isTrailing]
    cases behind : (Region.after endsCondition [t] rest).ending with
    | stop j last => rw [behind] at ends; cases ends
    | implicit j => rw [behind] at ends; cases ends
    | unclosed j o =>
        rw [behind] at ends
        obtain ⟨-, rfl⟩ := RegionEnd.unclosed.inj ends
        rfl
  rw [visitAt_append, settle, keyword]
  simp only [open_]
  rfl

/-- A region that stops has reached a body if the token it stops at is one. -/
theorem opensBody_stop_iff {j : Nat} {last : Token} :
    (RegionEnd.stop j last).OpensBody ↔ ownsBody last = true := by
  have kinds : last.provenance = .source ∨ last.provenance = .explicit ↔
      last.provenance ≠ .generated := by
    cases last.provenance <;> simp
  simp [RegionEnd.OpensBody, ownsBody, Token.isGenerated, ← or_assoc, kinds]

/-- Where nothing stays open, what a token settles to is what is decided about it. -/
theorem settle_eq_decided {front rest : Tokens} {t : Token}
    (closed : ∀ o, ¬StaysOpen (front ++ t :: rest) front.length o) :
    settle t rest = .ok (decided (front ++ t :: rest) front.length t) := by
  rw [settle, decided]
  cases keyword : trailing? t.tag with
  | none => rfl
  | some tag =>
      have word := trailing?_isSome_iff.1 (Option.isSome_of_eq_some keyword)
      simp only [conditionEnd_append, isTrailing]
      cases behind : (Region.after endsCondition [t] rest).ending with
      | stop j last =>
          simp only [RegionEnd.shift, opensBody_stop_iff, Except.map]
          cases ownsBody last <;> rfl
      | implicit j => rfl
      | unclosed j o =>
          have at_ : (front ++ t :: rest)[front.length]? = some t := by simp
          refine absurd ⟨t, at_, word, ?_⟩ (closed o)
          rw [conditionEnd_append, behind]
          exact ⟨_, rfl⟩

/-- Any other visit decides the token it is at. -/
theorem visitAt_closed {tokens : Tokens} {i : Nat} (closed : ∀ o, ¬StaysOpen tokens i o) :
    visitAt tokens i = .ok (tokens.modify i (decided tokens i)) := by
  cases at_ : tokens[i]? with
  | none =>
      have beyond : tokens.length ≤ i := List.getElem?_eq_none_iff.1 at_
      rw [visitAt, List.drop_eq_nil_of_le beyond, List.modify_eq_self beyond]
  | some t =>
      obtain ⟨front, rest, rfl, rfl⟩ := exists_of_getElem? at_
      rw [visitAt_append, settle_eq_decided closed, Closers.modify_length_append]
      rfl

/-! ## Visits in any order -/

/-- Every conditional of the stream is visited. -/
def Covers (order : List Nat) (tokens : Tokens) : Prop :=
  ∀ i, ∀ t ∈ tokens[i]?, t.tag = .ifWord ∨ t.tag = .unlessWord → i ∈ order

/-- A stream in which the tokens at some of the indexes have been decided. -/
def partly (tokens : Tokens) (visited : List Nat) : Tokens :=
  tokens.mapIdx fun i t => if i ∈ visited then decided tokens i t else t

theorem partly_nil (tokens : Tokens) : partly tokens [] = tokens := by
  simp [partly, List.mapIdx_eq_zipIdx_map]

/-- Where every conditional has been visited, all are decided. -/
theorem partly_all {tokens : Tokens} {visited : List Nat} (covers : Covers visited tokens) :
    partly tokens visited = tokens.mapIdx (decided tokens) := by
  refine List.ext_getElem? fun i => ?_
  rw [partly, List.getElem?_mapIdx, List.getElem?_mapIdx]
  refine Option.map_congr fun t at_ => ?_
  by_cases been : i ∈ visited
  · rw [if_pos been]
  · rw [if_neg been, decided_eq_self]
    rw [← Option.not_isSome_iff_eq_none, trailing?_isSome_iff]
    exact fun word => been (covers i t at_ word)

theorem partly_trails (tokens : Tokens) (visited : List Nat) :
    Forall₂ Trails tokens (partly tokens visited) := by
  refine List.forall₂_iff_get.2 ⟨by simp [partly], fun i within within' => ?_⟩
  simp only [partly, List.get_eq_getElem, List.getElem_mapIdx]
  split
  · exact decided_trails _ _ _
  · exact .inl rfl

theorem getElem?_partly (tokens : Tokens) (visited : List Nat) (i : Nat) :
    (partly tokens visited)[i]? =
      tokens[i]?.map fun t => if i ∈ visited then decided tokens i t else t := by
  rw [partly, List.getElem?_mapIdx]

/-- Deciding some of the conditionals leaves open what was open before, and nothing else. -/
theorem staysOpen_partly {tokens : Tokens} {visited : List Nat}
    {i : Nat} {opener : Token} (stays : StaysOpen (partly tokens visited) i opener) :
    StaysOpen tokens i opener := by
  obtain ⟨u, at_, word, k, ends⟩ := stays
  rw [getElem?_partly] at at_
  obtain ⟨t, here, rfl⟩ := Option.map_eq_some_iff.1 at_
  rw [conditionEnd_trails (partly_trails tokens visited)
    (List.getElem?_eq_some_iff.1 here).1] at ends
  refine ⟨t, here, ?_, k, ends⟩
  split at word
  · rcases decided_trails tokens i t with same | ⟨was, -⟩ | ⟨was, -⟩
    · rwa [same] at word
    · exact .inl was
    · exact .inr was
  · exact word

theorem staysOpen_partly_of_unvisited {tokens : Tokens} {visited : List Nat} {i : Nat}
    {opener : Token} (unvisited : i ∉ visited) (stays : StaysOpen tokens i opener) :
    StaysOpen (partly tokens visited) i opener := by
  obtain ⟨t, at_, word, k, ends⟩ := stays
  have here : tokens[i]? = some t := at_
  refine ⟨t, ?_, word, k, ?_⟩
  · rw [getElem?_partly, here, Option.map_some, if_neg unvisited]
    rfl
  · rw [conditionEnd_trails (partly_trails tokens visited) (List.getElem?_eq_some_iff.1 here).1,
      ends]

/-- **One more visit decides one more token**, by the stream as it was at first. -/
theorem visitAt_partly {tokens : Tokens} {i : Nat} (closed : ∀ o, ¬StaysOpen tokens i o)
    (visited : List Nat) :
    visitAt (partly tokens visited) i = .ok (partly tokens (i :: visited)) := by
  rw [visitAt_closed fun o stays => closed o (staysOpen_partly stays)]
  congr 1
  refine List.ext_getElem? fun j => ?_
  rw [List.getElem?_modify, getElem?_partly, getElem?_partly, Option.map_eq_map, Option.map_map]
  refine Option.map_congr fun t at_ => ?_
  have decides : decided (partly tokens visited) j = decided tokens j := by
    funext u
    rw [decided, decided, conditionEnd_trails (partly_trails tokens visited)
      (List.getElem?_eq_some_iff.1 at_).1]
  by_cases here : i = j
  · subst here
    simp only [Function.comp_apply, if_true, decides, List.mem_cons, true_or]
    split
    · exact decided_decided _ _ _
    · rfl
  · simp [here, Ne.symm here]

/-- Visits that find nothing left open decide the tokens they are at. -/
theorem foldlM_visitAt_partly {tokens : Tokens} {order : List Nat}
    (closed : ∀ i ∈ order, ∀ o, ¬StaysOpen tokens i o) (visited : List Nat) :
    order.foldlM visitAt (partly tokens visited) =
      .ok (partly tokens (order.reverse ++ visited)) := by
  induction order generalizing visited with
  | nil => rfl
  | cons i order ih =>
      rw [List.foldlM_cons, visitAt_partly (closed i (.head _))]
      have onward := ih (fun j member => closed j (.tail _ member)) (i :: visited)
      rwa [List.reverse_cons, List.append_assoc, List.singleton_append]

/-- The first visit that finds something left open fails. -/
theorem foldlM_visitAt_open {tokens : Tokens} {earlier later : List Nat} {i : Nat} {opener : Token}
    (closed : ∀ j ∈ earlier, ∀ o, ¬StaysOpen tokens j o) (stays : StaysOpen tokens i opener) :
    (earlier ++ i :: later).foldlM visitAt tokens = .error (.ofUnclosed opener) := by
  have unvisited : i ∉ earlier.reverse ++ [] := by
    intro member
    exact closed i (by simpa using member) opener stays
  have front := foldlM_visitAt_partly closed []
  rw [partly_nil] at front
  rw [List.foldlM_append, front]
  show (i :: later).foldlM visitAt (partly tokens _) = _
  rw [List.foldlM_cons, visitAt_open (staysOpen_partly_of_unvisited unvisited stays)]
  rfl

/-- The pass visits every index, from left to right. -/
theorem markTrailing_eq_foldlM (tokens : Tokens) :
    markTrailing tokens = (List.range tokens.length).foldlM visitAt tokens := by
  have onward : ∀ front rest : Tokens,
      (List.range' front.length rest.length).foldlM visitAt (front ++ rest) =
        (trailed rest).map (front ++ ·) := by
    intro front rest
    induction rest generalizing front with
    | nil => rfl
    | cons t rest ih =>
        rw [List.length_cons, List.range'_succ, List.foldlM_cons, visitAt_append, trailed]
        cases settle t rest with
        | error fault => rfl
        | ok u =>
            have next := ih (front ++ [u])
            rw [List.length_append, List.length_singleton, List.append_assoc] at next
            refine next.trans ?_
            cases trailed rest with
            | error fault => rfl
            | ok out => simp [Except.map]
  have whole := onward [] tokens
  rw [markTrailing_eq_trailed, List.range_eq_range']
  refine Eq.trans ?_ whole.symm
  cases trailed tokens <;> rfl

/-! ## The pass -/

/-- In a balanced stream every condition ends. -/
theorem not_staysOpen_of_balanced {tokens : Tokens} (balanced : ensureBalance tokens = .ok ())
    (i : Nat) (opener : Token) : ¬StaysOpen tokens i opener := by
  rintro ⟨_, -, -, k, ends⟩
  obtain ⟨forest, nests, rfl⟩ := (ensureBalance_iff_forest _).1 balanced
  have nothing : Region.Ends endsCondition [] := Region.ends_nil
  have behind := nothing.within nests.level (List.take_append_drop (i + 1) _).symm
  rw [List.append_nil] at behind
  exact behind _ _ _ _ ends

theorem covers_range (tokens : Tokens) : Covers (List.range tokens.length) tokens :=
  fun _ _ at_ _ => List.mem_range.2 (List.getElem?_eq_some_iff.1 at_).1

theorem foldlM_visitAt_all {tokens : Tokens} (closed : ∀ i o, ¬StaysOpen tokens i o)
    {order : List Nat} (covers : Covers order tokens) :
    order.foldlM visitAt tokens = .ok (tokens.mapIdx (decided tokens)) := by
  have visited := foldlM_visitAt_partly (fun i (_ : i ∈ order) => closed i) []
  rw [partly_nil] at visited
  rw [visited, partly_all fun i t at_ word => by simpa using covers i t at_ word]

/-- Visits that come to something left open fail at the first of it. -/
theorem exists_foldlM_visitAt_error {tokens : Tokens} {order : List Nat}
    (covers : Covers order tokens) {i : Nat} {opener : Token} (stays : StaysOpen tokens i opener) :
    ∃ j o, StaysOpen tokens j o ∧ order.foldlM visitAt tokens = .error (.ofUnclosed o) := by
  obtain ⟨t, at_, word, -⟩ := id stays
  classical
  have found : (order.find? fun i => decide (∃ o, StaysOpen tokens i o)).isSome = true :=
    List.find?_isSome.2 ⟨i, covers i t at_ word, by simpa using ⟨opener, stays⟩⟩
  obtain ⟨j, first⟩ := Option.isSome_iff_exists.1 found
  obtain ⟨open_, earlier, later, rfl, before⟩ := List.find?_eq_some_iff_append.1 first
  obtain ⟨o, stays'⟩ := of_decide_eq_true open_
  have closed : ∀ i ∈ earlier, ∀ o, ¬StaysOpen tokens i o := by
    intro i member
    simpa using before i member
  exact ⟨j, o, stays', foldlM_visitAt_open closed stays'⟩

/-- Visits that reach every conditional succeed just if no condition leaves an opener open. -/
theorem foldlM_visitAt_eq_ok_iff {tokens out : Tokens} {order : List Nat}
    (covers : Covers order tokens) :
    order.foldlM visitAt tokens = .ok out ↔
      (∀ i o, ¬StaysOpen tokens i o) ∧ out = tokens.mapIdx (decided tokens) := by
  constructor
  · intro done
    have closed : ∀ i o, ¬StaysOpen tokens i o := by
      intro i o stays
      obtain ⟨_, _, -, failed⟩ := exists_foldlM_visitAt_error covers stays
      rw [failed] at done
      cases done
    rw [foldlM_visitAt_all closed covers] at done
    exact ⟨closed, (Except.ok.inj done).symm⟩
  · rintro ⟨closed, rfl⟩
    exact foldlM_visitAt_all closed covers

theorem markTrailing_eq_ok_iff {tokens out : Tokens} :
    markTrailing tokens = .ok out ↔
      (∀ i o, ¬StaysOpen tokens i o) ∧ out = tokens.mapIdx (decided tokens) := by
  rw [markTrailing_eq_foldlM, foldlM_visitAt_eq_ok_iff (covers_range tokens)]

theorem markTrailing_eq_error {tokens : Tokens} {i : Nat} {opener : Token}
    (stays : StaysOpen tokens i opener) (first : ∀ j < i, ∀ o, ¬StaysOpen tokens j o) :
    markTrailing tokens = .error (.ofUnclosed opener) := by
  have within : i < tokens.length := by
    obtain ⟨t, at_, -⟩ := stays
    exact (List.getElem?_eq_some_iff.1 at_).1
  have order : List.range tokens.length =
      List.range i ++ i :: List.range' (i + 1) (tokens.length - (i + 1)) := by
    have length : tokens.length = i + (tokens.length - (i + 1) + 1) := by omega
    rw [List.range_eq_range', List.range_eq_range', ← List.range'_succ]
    conv_lhs => rw [length, ← List.range'_append_1, Nat.zero_add]
  rw [markTrailing_eq_foldlM, order]
  exact foldlM_visitAt_open (fun j member => first j (List.mem_range.1 member)) stays

/-- The pass fails for openers left open only. -/
theorem exists_of_markTrailing_error {tokens : Tokens} {fault : Fault}
    (failed : markTrailing tokens = .error fault) :
    ∃ i opener, StaysOpen tokens i opener ∧ fault = .ofUnclosed opener := by
  by_cases closed : ∀ i o, ¬StaysOpen tokens i o
  · rw [markTrailing_eq_ok_iff.2 ⟨closed, rfl⟩] at failed
    cases failed
  · simp only [not_forall, not_not] at closed
    obtain ⟨i, o, stays⟩ := closed
    obtain ⟨j, o', stays', blamed⟩ := exists_foldlM_visitAt_error (covers_range tokens) stays
    rw [markTrailing_eq_foldlM, blamed] at failed
    exact ⟨j, o', stays', (Except.error.inj failed).symm⟩

/-- The pass finds its work done. -/
theorem markTrailing_again {tokens out : Tokens} (done : markTrailing tokens = .ok out) :
    markTrailing out = .ok out := by
  obtain ⟨closed, rfl⟩ := markTrailing_eq_ok_iff.1 done
  have all := partly_all (covers_range tokens)
  have again : ∀ i o, ¬StaysOpen (tokens.mapIdx (decided tokens)) i o := by
    intro i o stays
    rw [← all] at stays
    exact closed i o (staysOpen_partly stays)
  obtain ⟨third, thrice⟩ : ∃ third, markTrailing (tokens.mapIdx (decided tokens)) = .ok third :=
    ⟨_, markTrailing_eq_ok_iff.2 ⟨again, rfl⟩⟩
  rw [markTrailing_eq_trailed] at done thrice
  rw [markTrailing_eq_trailed, thrice, trailed_trailed done thrice]

/-- **Conditionals are decided independently of each other.**  The first one whose condition
leaves an opener open is at fault, and the opener blamed is the outermost.  Without any, each
is decided by the stream as it was, and a second run finds nothing to retag.  Visiting the
conditionals in any other order, and any of them more than once, comes to the same. -/
theorem markTrailing_decides (tokens : Tokens) :
    (∀ i opener, StaysOpen tokens i opener → (∀ j < i, ∀ o, ¬StaysOpen tokens j o) →
      OutermostOpen tokens i opener ∧ markTrailing tokens = .error (.ofUnclosed opener)) ∧
    ((∀ i o, ¬StaysOpen tokens i o) →
      markTrailing tokens = .ok (tokens.mapIdx (decided tokens)) ∧
        markTrailing (tokens.mapIdx (decided tokens)) = .ok (tokens.mapIdx (decided tokens))) ∧
    ∀ order, Covers order tokens → ∀ out,
      order.foldlM visitAt tokens = .ok out ↔ markTrailing tokens = .ok out := by
  refine ⟨?_, ?_, ?_⟩
  · intro i opener stays first
    exact ⟨stays.outermost, markTrailing_eq_error stays first⟩
  · intro closed
    have done := markTrailing_eq_ok_iff.2 ⟨closed, rfl⟩
    exact ⟨done, markTrailing_again done⟩
  · intro order covers out
    rw [foldlM_visitAt_eq_ok_iff covers, markTrailing_eq_ok_iff]

/-- Two conditionals in a row that trail, and one that leads a block with another inside. -/
def neighbours : Tokens :=
  [.onFirstLineAs .identifier "a" 0, .onFirstLineAs .ifWord "if" 2,
   .onFirstLineAs .identifier "b" 5, .onFirstLineAs .unlessWord "unless" 7,
   .onFirstLineAs .identifier "c" 14, .onFirstLine .terminator 15, .onFirstLineAs .ifWord "if" 16,
   .onFirstLineAs .identifier "d" 19, .onFirstLine .indent 20, .onFirstLineAs .identifier "e" 21,
   .onFirstLineAs .ifWord "if" 23, .onFirstLineAs .identifier "f" 26, .onFirstLine .outdent 27]

/-- A condition with a group that is never closed, and in the group another with an index. -/
def openConditions : Tokens :=
  [.onFirstLineAs .identifier "a" 0, .onFirstLineAs .ifWord "if" 2, .onFirstLine .parenStart 5,
   .onFirstLineAs .identifier "b" 6, .onFirstLineAs .unlessWord "unless" 8,
   .onFirstLine .bracketStart 15, .onFirstLineAs .identifier "c" 16]

theorem markTrailing_decides_neighbours :
    (StaysOpen openConditions 1 (.onFirstLine .parenStart 5) ∧
      StaysOpen openConditions 4 (.onFirstLine .bracketStart 15) ∧
      markTrailing openConditions = .error (.ofUnclosed (.onFirstLine .parenStart 5))) ∧
    (neighbours.mapIdx (decided neighbours)).map Token.tag =
      [.identifier, .postIf, .identifier, .postUnless, .identifier, .terminator, .ifWord,
       .identifier, .indent, .identifier, .postIf, .identifier, .outdent] ∧
    markTrailing neighbours = .ok (neighbours.mapIdx (decided neighbours)) ∧
    [10, 3, 6, 3, 1].foldlM visitAt neighbours = .ok (neighbours.mapIdx (decided neighbours)) := by
  have outer : StaysOpen openConditions 1 (.onFirstLine .parenStart 5) :=
    ⟨_, rfl, .inl rfl, 2, by decide⟩
  have inner : StaysOpen openConditions 4 (.onFirstLine .bracketStart 15) :=
    ⟨_, rfl, .inr rfl, 5, by decide⟩
  have first : ∀ j < 1, ∀ o, ¬StaysOpen openConditions j o := by
    rintro j before o ⟨t, at_, word, -⟩
    obtain rfl : j = 0 := by omega
    obtain rfl := Option.some.inj at_
    revert word
    decide
  have closed : ∀ i o, ¬StaysOpen neighbours i o :=
    not_staysOpen_of_balanced (by decide)
  have covers : Covers [10, 3, 6, 3, 1] neighbours := by
    have all : ∀ i < 13, ∀ t ∈ neighbours[i]?, t.tag = .ifWord ∨ t.tag = .unlessWord →
        i ∈ [10, 3, 6, 3, 1] := by decide
    exact fun i t at_ => all i (List.getElem?_eq_some_iff.1 at_).1 t at_
  obtain ⟨fails, -⟩ := markTrailing_decides openConditions
  obtain ⟨-, decides, visits⟩ := markTrailing_decides neighbours
  exact ⟨⟨outer, inner, (fails 1 _ outer first).2⟩, by decide, (decides closed).1,
    (visits _ covers _).2 (decides closed).1⟩

end Conditionals

end TokenLayout
