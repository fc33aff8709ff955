/-
# TokenLayout.Proofs.Passes -- the passes that decide token by token

Three passes settle each token by looking at it and at what comes after it, or at
its two neighbours, so each is a recursion over the stream:

* `Statements.terminated` puts a terminator after a block's end where the next
  token calls for one (`Statements.due`);
* `Conditionals.trailed` retags a conditional by the tokens after it, for a
  condition ends where it ends no matter what stands before the keyword
  (`Conditionals.isTrailing_cons`);
* `Locations.settleFrom` is a recursion as it stands.

Each is done after one run: its outcome is a stream it has nothing to do in.
-/
import Mathlib.Data.List.Forall2
import TokenLayout.Pass
import TokenLayout.Proofs.Regions
import TokenLayout.Proofs.Walks

namespace TokenLayout

set_option autoImplicit false

open Cursor (Walks)

/-! ## Leading terminators -/

/-- The stream starts with a statement, or is empty. -/
def Starts (tokens : Tokens) : Prop :=
  ∀ t ∈ tokens.head?, t.tag ≠ .terminator

@[simp] theorem Statements.dropLeading_nil : dropLeading [] = [] := rfl

@[simp] theorem Statements.dropLeading_cons (t : Token) (rest : Tokens) :
    dropLeading (t :: rest) = if t.tag = .terminator then dropLeading rest else t :: rest := by
  simp [dropLeading, List.dropWhile_cons]

theorem Statements.dropLeading_eq_self {tokens : Tokens} (starts : Starts tokens) :
    dropLeading tokens = tokens := by
  cases tokens with
  | nil => rfl
  | cons t rest => simp [starts t rfl]

theorem Statements.starts_dropLeading (tokens : Tokens) : Starts (dropLeading tokens) := by
  induction tokens with
  | nil =>
      intro t first
      cases first
  | cons t rest ih =>
      by_cases leading : t.tag = .terminator
      · simpa [leading] using ih
      · rw [dropLeading, List.dropWhile_cons_of_neg (by simp [leading])]
        rintro u first
        obtain rfl : t = u := by simpa using first
        exact leading

namespace Statements

/-! ## Terminators after blocks -/

/-- The terminator after a token, where one is due. -/
def due (t : Token) (next : Option Token) : Tokens :=
  match next with
  | some n => if t.tag = .outdent ∧ !continuesBlock n then [Token.explicit .terminator t] else []
  | none => []

/-- A stream with every terminator that is due. -/
def terminated : Tokens → Tokens
  | [] => []
  | t :: rest => t :: (due t rest.head? ++ terminated rest)

/-- No terminator is due. -/
def Terminated : Tokens → Prop
  | [] => True
  | t :: rest => due t rest.head? = [] ∧ Terminated rest

theorem due_other {t : Token} (other : t.tag ≠ .outdent) (next : Option Token) :
    due t next = [] := by
  cases next <;> simp [due, other]

theorem walks_terminated (before tokens : Tokens) :
    Walks visit tokens.length ⟨before, tokens⟩ ⟨(terminated tokens).reverse ++ before, []⟩ := by
  induction tokens generalizing before with
  | nil => exact .here _ _
  | cons t rest ih =>
      cases rest with
      | nil => exact .keep rfl (.here _ _)
      | cons next later =>
          by_cases ends : t.tag = .outdent ∧ !continuesBlock next
          · have visited : visit before t (next :: later) =
                .ok (⟨before, t :: Token.explicit .terminator t :: next :: later⟩, 2) := by
              simp only [visit, if_pos ends]
            refine .step visited ?_
            rw [Cursor.move_two]
            have onward := ih (Token.explicit .terminator t :: t :: before)
            rw [terminated]
            simpa [due, ends] using onward
          · have visited : visit before t (next :: later) =
                Cursor.keep before t (next :: later) := by
              simp only [visit, if_neg ends]
            have onward := ih (t :: before)
            have nothing : due t (some next) = [] := by simp only [due, if_neg ends]
            rw [terminated, List.head?_cons, nothing]
            exact .keep visited (by simpa using onward)

theorem terminateBlocks_eq (tokens : Tokens) :
    terminateBlocks tokens = .ok (terminated tokens) := by
  have whole := walks_terminated [] tokens
  rw [List.append_nil] at whole
  have done := Cursor.scan_of_walks whole (Nat.le_refl _)
  rwa [List.reverse_reverse] at done

theorem head?_terminated (tokens : Tokens) : (terminated tokens).head? = tokens.head? := by
  cases tokens <;> rfl

theorem terminated_terminated (tokens : Tokens) : Terminated (terminated tokens) := by
  induction tokens with
  | nil => trivial
  | cons t rest ih =>
      cases added : due t rest.head? with
      | nil =>
          rw [terminated, added]
          exact ⟨by rw [List.nil_append, head?_terminated, added], ih⟩
      | cons u more =>
          obtain ⟨rfl, rfl⟩ : u = Token.explicit .terminator t ∧ more = [] := by
            unfold due at added
            split at added
            · split at added
              · obtain ⟨rfl, rfl⟩ := List.cons.inj added
                exact ⟨rfl, rfl⟩
              · cases added
            · cases added
          rw [terminated, added]
          have terminator : (Token.explicit .terminator t).tag ≠ .outdent := by
            show Tag.terminator ≠ .outdent
            decide
          refine ⟨?_, due_other terminator _, ih⟩
          simp only [List.cons_append, List.head?_cons, due]
          rw [if_neg]
          rintro ⟨-, ends⟩
          cases ends

theorem terminated_eq_self {tokens : Tokens} (done : Terminated tokens) :
    terminated tokens = tokens := by
  induction tokens with
  | nil => rfl
  | cons t rest ih => rw [terminated, done.1, ih done.2, List.nil_append]

end Statements

namespace Conditionals

/-! ## Trailing conditionals -/

/-- Of the tokens before a region its condition sees one at most. -/
theorem scan_congr (opened : List (Nat × Token)) (t : Token) (before before' : Tokens)
    (index : Nat) (tokens : Tokens) :
    Region.scan endsCondition opened (t :: before) index tokens =
      Region.scan endsCondition opened (t :: before') index tokens := by
  induction tokens generalizing opened t before before' index with
  | nil => rfl
  | cons u rest ih =>
      have same : endsCondition (t :: before) u rest = endsCondition (t :: before') u rest := rfl
      have later := fun opened => ih opened u (t :: before) (t :: before') (index + 1)
      simp only [Region.scan, same, later]

theorem isTrailing_cons (t : Token) (before after : Tokens) :
    isTrailing (t :: before) after = isTrailing [t] after := by
  unfold isTrailing Region.after
  rw [scan_congr]

/-- A token after the pass, given the tokens after it. -/
def settle (t : Token) (after : Tokens) : Except Fault Token :=
  match trailing? t.tag with
  | none => .ok t
  | some tag => (isTrailing [t] after).map fun trails => if trails then t.retag tag else t

/-- A stream after the pass. -/
def trailed : Tokens → Except Fault Tokens
  | [] => .ok []
  | t :: rest =>
      match settle t rest with
      | .error fault => .error fault
      | .ok u => (trailed rest).map (u :: ·)

theorem trailing?_cases {t tag : Tag} (keyword : trailing? t = some tag) :
    (t = .ifWord ∧ tag = .postIf) ∨ (t = .unlessWord ∧ tag = .postUnless) := by
  unfold trailing? at keyword
  split at keyword
  · exact .inl ⟨rfl, (Option.some.inj keyword).symm⟩
  · exact .inr ⟨rfl, (Option.some.inj keyword).symm⟩
  · cases keyword

/-- A token is kept, and leads if it is a keyword, or it is a keyword that trails. -/
theorem settle_cases {t u : Token} {after : Tokens} (settled : settle t after = .ok u) :
    (u = t ∧ (t.tag = .ifWord ∨ t.tag = .unlessWord → isTrailing [t] after = .ok false)) ∨
      ∃ tag, trailing? t.tag = some tag ∧ isTrailing [t] after = .ok true ∧ u = t.retag tag := by
  unfold settle at settled
  split at settled
  · rename_i other
    refine .inl ⟨(Except.ok.inj settled).symm, ?_⟩
    intro word
    rcases word with word | word <;>
      · rw [word] at other
        cases other
  · rename_i tag keyword
    cases trails : isTrailing [t] after with
    | error fault =>
        rw [trails] at settled
        cases settled
    | ok trailing =>
        rw [trails] at settled
        have whole := (Except.ok.inj settled).symm
        cases trailing with
        | false => exact .inl ⟨whole, fun _ => rfl⟩
        | true => exact .inr ⟨tag, keyword, rfl, whole⟩

theorem trailed_cons_cases {t : Token} {rest out : Tokens}
    (done : trailed (t :: rest) = .ok out) :
    ∃ u later, settle t rest = .ok u ∧ trailed rest = .ok later ∧ out = u :: later := by
  simp only [trailed] at done
  split at done
  · cases done
  · rename_i u settled
    cases behind : trailed rest with
    | error fault =>
        rw [behind] at done
        cases done
    | ok later =>
        rw [behind] at done
        exact ⟨u, later, settled, rfl, (Except.ok.inj done).symm⟩

/-- What is so of every token that settles is so, place by place, of the pass. -/
theorem forall₂_trailed {R : Token → Token → Prop}
    (each : ∀ {t u : Token} {after : Tokens}, settle t after = .ok u → R t u)
    {tokens out : Tokens} (done : trailed tokens = .ok out) : List.Forall₂ R tokens out := by
  induction tokens generalizing out with
  | nil =>
      obtain rfl := Except.ok.inj done
      exact .nil
  | cons t rest ih =>
      obtain ⟨u, later, settled, behind, rfl⟩ := trailed_cons_cases done
      exact .cons (each settled) (ih behind)

theorem visit_eq_settle (before : Tokens) (t : Token) (after : Tokens) :
    visit before t after = (settle t after).map fun u => (⟨before, u :: after⟩, 1) := by
  simp only [visit, settle, isTrailing_cons]
  cases trailing? t.tag with
  | none => rfl
  | some tag =>
      cases isTrailing [t] after with
      | error fault => rfl
      | ok trails => cases trails <;> rfl

/-- The walk goes as far as the tokens settle. -/
theorem walks_trailed (before tokens : Tokens) :
    (∃ out, trailed tokens = .ok out ∧
      Walks visit tokens.length ⟨before, tokens⟩ ⟨out.reverse ++ before, []⟩) ∨
    ∃ fault n before' t after, trailed tokens = .error fault ∧ n < tokens.length ∧
      Walks visit n ⟨before, tokens⟩ ⟨before', t :: after⟩ ∧
      visit before' t after = .error fault := by
  induction tokens generalizing before with
  | nil => exact .inl ⟨[], rfl, .here _ _⟩
  | cons t rest ih =>
      have visited := visit_eq_settle before t rest
      cases settled : settle t rest with
      | error fault =>
          rw [settled] at visited
          exact .inr ⟨fault, 0, before, t, rest, by simp [trailed, settled], by simp,
            .here _ _, visited⟩
      | ok u =>
          rw [settled] at visited
          rcases ih (u :: before) with ⟨out, done, walks⟩ |
            ⟨fault, n, before', w, after, failed, few, walks, stops⟩
          · refine .inl ⟨u :: out, by simp [trailed, settled, done, Except.map], .step visited ?_⟩
            rw [Cursor.move_one]
            simpa using walks
          · refine .inr ⟨fault, n + 1, before', w, after,
              by simp [trailed, settled, failed, Except.map], by simpa using few,
              .step visited ?_, stops⟩
            rwa [Cursor.move_one]

theorem markTrailing_eq_trailed (tokens : Tokens) : markTrailing tokens = trailed tokens := by
  rcases walks_trailed [] tokens with ⟨out, done, walks⟩ |
    ⟨fault, n, before, t, after, failed, few, walks, stops⟩
  · rw [List.append_nil] at walks
    have whole := Cursor.scan_of_walks walks (Nat.le_refl _)
    rw [List.reverse_reverse] at whole
    rw [done]
    exact whole
  · rw [failed]
    exact Cursor.scan_of_walks_error walks stops few

end Conditionals

namespace Locations

/-! ## Locations -/

/-- The pass has nothing to do at this token. -/
def Placed (t : Token) : Prop :=
  t.location.isSome = true ∨ t.provenance = .source

theorem settle_placed (previous next : Option Location) (t : Token) :
    Placed (settle previous t next) := by
  unfold settle
  split
  · rename_i done
    simpa [Placed, Token.isSynthesized] using done
  · exact .inl rfl

theorem settle_eq_self {t : Token} (placed : Placed t) (previous next : Option Location) :
    settle previous t next = t := by
  unfold settle
  rw [if_pos]
  simpa [Placed, Token.isSynthesized] using placed

theorem settleFrom_placed (previous : Option Location) (tokens : Tokens) :
    ∀ t ∈ settleFrom previous tokens, Placed t := by
  induction tokens generalizing previous with
  | nil =>
      intro t member
      cases member
  | cons t rest ih =>
      intro u member
      rcases List.mem_cons.1 member with rfl | later
      · exact settle_placed _ _ _
      · exact ih _ u later

theorem settleFrom_eq_self {tokens : Tokens} (placed : ∀ t ∈ tokens, Placed t)
    (previous : Option Location) : settleFrom previous tokens = tokens := by
  induction tokens generalizing previous with
  | nil => rfl
  | cons t rest ih =>
      simp only [settleFrom, settle_eq_self (placed t (.head _)),
        ih fun u member => placed u (.tail _ member)]

/-- How far the tokens reach that end with one at this location. -/
def reach (previous : Option Location) : Position :=
  match previous with
  | some l => l.stop
  | none => .zero

/-- A token is put where the tokens before it end, or where the next one starts. -/
theorem place_cases (tag : Tag) (previous next : Option Location) :
    place tag previous next = reach previous ∨ ∃ l ∈ next, place tag previous next = l.start := by
  unfold place reach
  split
  · rename_i l
    exact .inr ⟨l, rfl, rfl⟩
  · exact .inl rfl
  · exact .inl rfl

/-- A token without its location. -/
def unplaced (t : Token) : Token :=
  { t with location := none }

theorem unplaced_settle (previous next : Option Location) (t : Token) :
    unplaced (settle previous t next) = unplaced t := by
  unfold settle
  split <;> rfl

/-- The pass changes nothing but locations. -/
theorem map_unplaced_settleFrom (previous : Option Location) (tokens : Tokens) :
    (settleFrom previous tokens).map unplaced = tokens.map unplaced := by
  induction tokens generalizing previous with
  | nil => rfl
  | cons t rest ih => simp only [settleFrom, List.map_cons, unplaced_settle, ih]

end Locations

end TokenLayout
