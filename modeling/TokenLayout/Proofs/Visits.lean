/-
# TokenLayout.Proofs.Visits -- what a walk visits

A visit may note down where it is, and what it notes down changes nothing about the walk
(`walk_recording`).  So to count visits, or to list them, is to walk with a visit that does.

A walk that puts other tokens in the place of each token and goes on behind them visits each
token of the stream once, however many it puts there: what is still to come is the stream
behind the token, untouched, and what is behind the cursor is what the tokens before have
been replaced by (`walk_replaced`).  Main statement: `scan_replacing`.

Rules that are never used up keep no state but the record of their visits, so a walk by them
is a scan, too (`Rule.walk_eq_scan`).
-/
import TokenLayout.Rule
import TokenLayout.Proofs.Walks

namespace TokenLayout.Cursor

set_option autoImplicit false

variable {ε : Type} {visit : PlainVisit ε}

/-! ## What is noted down -/

/-- A plain visit that keeps a record of what it visits. -/
def PlainVisit.recording {σ : Type} (visit : PlainVisit ε)
    (note : σ → Tokens → Token → Tokens → σ) : Visit σ ε :=
  fun record before t after => (note record before t after, visit before t after)

/-- A walk leaves the same stream and ends the same way whatever is noted down. -/
theorem walk_recording {σ τ : Type} (note : σ → Tokens → Token → Tokens → σ)
    (note' : τ → Tokens → Token → Tokens → τ) (budget : Nat) (record : σ) (record' : τ)
    (c : Cursor) :
    (walk (visit.recording note) budget record c).tokens =
        (walk (visit.recording note') budget record' c).tokens ∧
      (walk (visit.recording note) budget record c).ending =
        (walk (visit.recording note') budget record' c).ending := by
  induction budget generalizing record record' c with
  | zero =>
      obtain ⟨before, - | ⟨t, after⟩⟩ := c
      · exact ⟨rfl, rfl⟩
      · exact ⟨rfl, rfl⟩
  | succ budget ih =>
      obtain ⟨before, - | ⟨t, after⟩⟩ := c
      · exact ⟨rfl, rfl⟩
      · simp only [walk, PlainVisit.recording]
        cases visit before t after with
        | error e => exact ⟨rfl, rfl⟩
        | ok p => exact ih _ _ _

/-- The outcome of a walk over a whole stream, with a record or without. -/
theorem scan_eq_recording {σ : Type} (note : σ → Tokens → Token → Tokens → σ) (budget : Nat)
    (record : σ) (tokens : Tokens) :
    scan visit budget tokens =
      match (walk (visit.recording note) budget record (start tokens)).ending with
      | .failed e => .error e
      | _ => .ok (walk (visit.recording note) budget record (start tokens)).tokens := by
  let unnoted : Unit → Tokens → Token → Tokens → Unit := fun _ _ _ _ => ()
  have alike : (walk (visit.recording unnoted) budget () (start tokens)).tokens =
        (walk (visit.recording note) budget record (start tokens)).tokens ∧
      (walk (visit.recording unnoted) budget () (start tokens)).ending =
        (walk (visit.recording note) budget record (start tokens)).ending :=
    walk_recording unnoted note budget () record (start tokens)
  rw [← alike.1, ← alike.2]
  rfl

theorem scan_eq_noting (visit : PlainVisit ε) (budget : Nat) (tokens : Tokens) :
    scan visit budget tokens =
      match (walk visit.noting budget [] (start tokens)).ending with
      | .failed e => .error e
      | _ => .ok (walk visit.noting budget [] (start tokens)).tokens :=
  scan_eq_recording (fun visited before _ _ => before.length :: visited) budget [] tokens

/-! ## Replacing tokens -/

/-- Put other tokens in the place of the one visited, and go on behind them. -/
def replacing (r : Token → Except ε Tokens) : PlainVisit ε :=
  fun before t after => (r t).map fun new => (⟨before, new ++ after⟩, new.length)

variable {r : Token → Except ε Tokens} {new : Token → Tokens}

/-- The places that the tokens of a stream come to when each is replaced: each behind what those
before it have been replaced by. -/
def places (new : Token → Tokens) (start : Nat) : Tokens → List Nat
  | [] => []
  | t :: rest => start :: places new (start + (new t).length) rest

theorem places_eq (new : Token → Tokens) (start : Nat) (tokens : Tokens) :
    places new start tokens =
      (List.range tokens.length).map fun i => start + ((tokens.take i).flatMap new).length := by
  induction tokens generalizing start with
  | nil => rfl
  | cons t rest ih =>
      simp [places, ih, List.range_succ_eq_map, Nat.add_assoc]

/-- **Along a front that is replaced** each token is visited once, and the walk comes to what is
behind it. -/
theorem walk_replaced {front : Tokens} (each : ∀ t ∈ front, r t = .ok (new t)) (budget : Nat)
    (visited : List Nat) (before back : Tokens) :
    walk (replacing r).noting (front.length + budget) visited ⟨before, front ++ back⟩ =
      walk (replacing r).noting budget ((places new before.length front).reverse ++ visited)
        ⟨(front.flatMap new).reverse ++ before, back⟩ := by
  induction front generalizing visited before with
  | nil => simp [places]
  | cons t front ih =>
      have here := each t (.head _)
      have onward := ih (fun u member => each u (.tail _ member)) (before.length :: visited)
        ((new t).reverse ++ before)
      have more : (t :: front).length + budget = front.length + budget + 1 := by
        rw [List.length_cons]
        omega
      have step : replacing r before t (front ++ back) =
          .ok (⟨before, new t ++ (front ++ back)⟩, (new t).length) := by
        rw [replacing, here]
        rfl
      rw [more, List.cons_append]
      simp only [walk, PlainVisit.noting, step, move_over]
      simp only [List.length_append, List.length_reverse] at onward
      rw [Nat.add_comm (new t).length] at onward
      simpa [PlainVisit.noting, places] using onward

/-- **Tokens are replaced one by one.**  If each token of a stream has tokens to replace it, then
the walk ends with all of these in order, and has visited each token once, at the place it had
come to.  If some have none, then the walk fails with the error of the first of them. -/
theorem scan_replacing (r : Token → Except ε Tokens) (tokens : Tokens) (extra : Nat) :
    let budget := tokens.length + extra
    let done := walk (replacing r).noting budget [] (start tokens)
    (∀ new : Token → Tokens, (∀ t ∈ tokens, r t = .ok (new t)) →
      scan (replacing r) budget tokens = .ok (tokens.flatMap new) ∧ done.ending = .finished ∧
        done.state.length = tokens.length ∧
        done.state.reverse =
          (List.range tokens.length).map fun i => ((tokens.take i).flatMap new).length) ∧
      ∀ (front : Tokens) (t : Token) (back : Tokens) (e : ε), tokens = front ++ t :: back →
        (∀ u ∈ front, ∃ new, r u = .ok new) → r t = .error e →
          scan (replacing r) budget tokens = .error e ∧ done.ending = .failed e := by
  intro budget done
  have outcome : scan (replacing r) budget tokens =
      match done.ending with
      | .failed e => .error e
      | _ => .ok done.tokens :=
    scan_eq_noting (replacing r) budget tokens
  refine ⟨fun new each => ?_, fun front t back e split some_ failed => ?_⟩
  · have whole := walk_replaced each extra [] [] []
    rw [List.append_nil, List.append_nil, List.append_nil] at whole
    have ends : done = ⟨(places new 0 tokens).reverse, tokens.flatMap new, .finished⟩ := by
      refine whole.trans ?_
      simp [walk]
    rw [outcome, ends]
    simp [places_eq]
  · have each : ∀ u ∈ front, r u = .ok ((r u).toOption.getD []) := by
      intro u member
      obtain ⟨new, replaced⟩ := some_ u member
      rw [replaced]
      rfl
    have enough : budget = front.length + (back.length + extra + 1) := by
      simp only [budget, split, List.length_append, List.length_cons]
      omega
    have refused : ∀ before after, replacing r before t after = .error e := by
      intro before after
      rw [replacing, failed]
      rfl
    have ends : done.ending = .failed e := by
      have upTo := walk_replaced each (back.length + extra + 1) [] [] (t :: back)
      rw [← split, ← enough] at upTo
      show (walk (replacing r).noting budget [] ⟨[], tokens⟩).ending = _
      rw [upTo]
      simp only [walk, PlainVisit.noting, refused]
    rw [outcome, ends]
    exact ⟨rfl, rfl⟩

/-- A comma becomes two, a terminator none, and at a colon the walk fails. -/
theorem scan_replacing_commas :
    let new : Token → Tokens := fun t =>
      if t.tag = .comma then [t, t] else if t.tag = .terminator then [] else [t]
    let r : Token → Except Fault Tokens := fun t =>
      if t.tag = .colon then .error (.ofUnbalanced t) else .ok (new t)
    let comma := Token.bare .comma
    let terminator := Token.bare .terminator
    let name := Token.bare .identifier
    let colon := Token.onFirstLine .colon 3
    (scan (replacing r) 4 [terminator, comma, terminator, name] = .ok [comma, comma, name] ∧
      (walk (replacing r).noting 4 [] (start [terminator, comma, terminator, name])).state =
        [2, 2, 0, 0]) ∧
      scan (replacing r) 4 [comma, colon, name, Token.onFirstLine .colon 5] =
        .error (.unbalanced .colon (.point ⟨0, 3⟩)) := by
  intro new r comma terminator name colon
  have each : ∀ t ∈ [terminator, comma, terminator, name], r t = .ok (new t) := by
    simp [r, terminator, comma, name]
  obtain ⟨done, -, -, visited⟩ := (scan_replacing r _ 0).1 new each
  obtain ⟨failed, -⟩ := (scan_replacing r [comma, colon, name, Token.onFirstLine .colon 5] 0).2
    [comma] colon _ (.ofUnbalanced colon) rfl (fun u member => ⟨[u, u], by
      rw [List.mem_singleton.1 member]
      rfl⟩) rfl
  exact ⟨⟨done, List.reverse_inj.1 visited⟩, failed⟩

/-! ## Rules -/

/-- Visits that do the same under states that correspond make the same walk. -/
theorem walk_map_state {σ τ : Type} {visit : Visit σ ε} {visit' : Visit τ ε} (f : τ → σ)
    (same : ∀ s before t after,
      visit (f s) before t after = Prod.map f id (visit' s before t after))
    (budget : Nat) (s : τ) (c : Cursor) : walk visit budget (f s) c =
      ⟨f (walk visit' budget s c).state, (walk visit' budget s c).tokens,
        (walk visit' budget s c).ending⟩ := by
  induction budget generalizing s c with
  | zero =>
      obtain ⟨before, - | ⟨t, after⟩⟩ := c
      · rfl
      · rfl
  | succ budget ih =>
      obtain ⟨before, - | ⟨t, after⟩⟩ := c
      · rfl
      · simp only [walk, same]
        cases visit' s before t after with
        | mk next outcome =>
            cases outcome with
            | error e => rfl
            | ok p => exact ih next _

end TokenLayout.Cursor

namespace TokenLayout.Rule

/-- What rules do at a token while none of them is used up: the first one that applies is used. -/
def plain (rules : List Rule) : Cursor.PlainVisit Fault := fun before t after =>
  match rules.find? (·.applies t) with
  | none => Cursor.keep before t after
  | some r => (edit r.action t after).map fun rest => (⟨before, rest⟩, r.step)

/-- Rules of unlimited use stay as they are. -/
theorem choose_unlimited {rules : List Rule} (unlimited : ∀ r ∈ rules, r.uses = none) (t : Token) :
    choose t rules = (rules.find? (·.applies t)).map fun r => (r, rules) := by
  induction rules with
  | nil => rfl
  | cons r rules ih =>
      have more : ({ r with uses := r.uses.map (· - 1) } : Rule) = r := by
        rw [unlimited r (.head _), Option.map_none, ← unlimited r (.head _)]
      rw [choose, List.find?_cons, more, ih fun r' member => unlimited r' (.tail r member)]
      cases r.applies t with
      | true => rfl
      | false => cases rules.find? (·.applies t) <;> rfl

/-- **A walk by rules that are never used up is a scan**, and it records the indexes that the scan
visits. -/
theorem walk_eq_scan {rules : List Rule} (unlimited : ∀ r ∈ rules, r.uses = none) (limit : Nat)
    (tokens : Tokens) :
    (Cursor.scan (plain rules) limit tokens =
      match (walk rules limit tokens).ending with
      | .failed e => .error e
      | _ => .ok (walk rules limit tokens).tokens) ∧
    (walk rules limit tokens).state =
      ⟨rules, (Cursor.walk (plain rules).noting limit [] (Cursor.start tokens)).state⟩ := by
  have same : ∀ visited before t after, visit ⟨rules, visited⟩ before t after =
      Prod.map (Record.mk rules) id ((plain rules).noting visited before t after) := by
    intro visited before t after
    simp only [visit, choose_unlimited unlimited, Cursor.PlainVisit.noting, plain]
    cases rules.find? (·.applies t) <;> rfl
  have noted := Cursor.walk_map_state (Record.mk rules) same limit [] (Cursor.start tokens)
  rw [walk, noted, Cursor.scan_eq_noting]
  refine ⟨?_, rfl⟩
  cases (Cursor.walk (plain rules).noting limit [] (Cursor.start tokens)).ending <;> rfl

end TokenLayout.Rule
