/-
# TokenLayout.Proofs.Closers -- how a construct is closed

A stream is closed from its end to its start, so what is done to a stream in two parts
is what is done to the first part in front of the second, already closed
(`closeOnto_append`).

A construct whose inside is a level forest is closed right after that forest.
There either its stop holds, and the token there is retagged
(`closeOne_of_stop`), or a closer of something else or the end of the stream
follows, and a generated closer is put in front of it (`closeOne_of_yields`).

A call also stops at an `OUTDENT` after a `)` that closes no group.  Where each
`)` of a forest closes a `(`, that never happens right after the forest
(`endsCall_outdent`).
-/
import TokenLayout.Pass.Closers
import TokenLayout.Proofs.Regions

namespace TokenLayout.Closers

set_option autoImplicit false

variable {construct : Construct}

/-! ## A stream in two parts -/

/-- What closing a part of a stream has done with its first token. -/
theorem closeOnto_cons_cases {before rest closed out : Tokens} {t : Token}
    (done : closeOnto construct before (t :: rest) closed = .ok out) :
    ∃ later, closeOnto construct (t :: before) rest closed = .ok later ∧
      ((∃ closed', t.tag = construct.opener ∧ closeOne construct before t later = .ok closed' ∧
          out = t :: closed') ∨
        (t.tag ≠ construct.opener ∧ out = t :: later)) := by
  simp only [closeOnto] at done
  cases behind : closeOnto construct (t :: before) rest closed with
  | error fault => simp [behind] at done
  | ok later =>
      simp only [behind] at done
      refine ⟨later, rfl, ?_⟩
      by_cases opens : t.tag = construct.opener
      · rw [if_pos opens] at done
        cases one : closeOne construct before t later with
        | error fault =>
            rw [one] at done
            cases done
        | ok closed' =>
            rw [one] at done
            exact .inl ⟨closed', opens, rfl, (Except.ok.inj done).symm⟩
      · rw [if_neg opens] at done
        exact .inr ⟨opens, (Except.ok.inj done).symm⟩

theorem closeOnto_append {before left right closed closed' : Tokens}
    (done : closeOnto construct (left.reverse ++ before) right closed = .ok closed') :
    closeOnto construct before (left ++ right) closed =
      closeOnto construct before left closed' := by
  induction left generalizing before with
  | nil => simpa [closeOnto] using done
  | cons t left ih =>
      have inner : closeOnto construct (t :: before) (left ++ right) closed =
          closeOnto construct (t :: before) left closed' := by
        apply ih
        simpa using done
      simp only [List.cons_append, closeOnto, inner]

theorem closeOnto_cons_other {before rest closed closed' : Tokens} {t : Token}
    (other : t.tag ≠ construct.opener)
    (done : closeOnto construct (t :: before) rest closed = .ok closed') :
    closeOnto construct before (t :: rest) closed = .ok (t :: closed') := by
  simp only [closeOnto, done, if_neg other]

theorem closeOnto_cons_opener {before rest closed closed' closed'' : Tokens} {t : Token}
    (opens : t.tag = construct.opener)
    (done : closeOnto construct (t :: before) rest closed = .ok closed')
    (one : closeOne construct before t closed' = .ok closed'') :
    closeOnto construct before (t :: rest) closed = .ok (t :: closed'') := by
  simp only [closeOnto, done, if_pos opens, one]
  rfl

/-! ## One construct -/

/-- The stop of a construct holds at closers only. -/
def Construct.EndsAtClosers (construct : Construct) : Prop :=
  ∀ before t after, construct.ends before t after = true → t.tag.isCloser = true

theorem call_endsAtClosers : call.EndsAtClosers := by
  intro before t after holds
  simp only [call, endsCall] at holds
  split at holds
  · simp_all; decide
  · simp_all; decide
  · simp_all; decide
  · simp at holds

theorem index_endsAtClosers : index.EndsAtClosers := by
  intro before t after holds
  simp only [index, endsIndex, Bool.or_eq_true, beq_iff_eq] at holds
  rcases holds with tag | tag <;> rw [tag] <;> decide

theorem modify_length_append (left right : Tokens) (t : Token) (f : Token → Token) :
    (left ++ t :: right).modify left.length f = left ++ f t :: right := by
  induction left with
  | nil => rfl
  | cons first left ih => simp [ih]

theorem insertIdx_length_append (left right : Tokens) (t : Token) :
    (left ++ right).insertIdx left.length t = left ++ t :: right := by
  induction left with
  | nil => rfl
  | cons first left ih => simp [ih]

/-- A construct whose stop comes right after a level forest has the closer there
retagged. -/
theorem closeOne_of_stop (atClosers : construct.EndsAtClosers) {inside : Forest Token}
    (level : inside.Level) {before rest : Tokens} {opener last : Token}
    (holds : construct.ends (inside.flatten.reverse ++ opener :: before) last rest = true)
    (notOutdent : last.tag ≠ .outdent) :
    closeOne construct before opener (inside.flatten ++ last :: rest) =
      .ok (inside.flatten ++ last.retag construct.closer :: rest) := by
  have quiet := level.quiet atClosers (opener :: before) (last :: rest)
  simp only [closeOne, Region.after_stop level quiet holds, if_neg notOutdent,
    modify_length_append]

/-- What comes next ends a region without stopping it: a closer at which the stop
does not hold, or nothing. -/
def Construct.Yields (construct : Construct) (before next : Tokens) : Prop :=
  match next with
  | [] => True
  | t :: rest => t.tag.isCloser = true ∧ construct.ends before t rest = false

/-- A construct that a level forest fills is closed right after it where what comes
next yields. -/
theorem closeOne_of_yields (atClosers : construct.EndsAtClosers) {inside : Forest Token}
    (level : inside.Level) {before next : Tokens} {opener : Token}
    (yields : construct.Yields (inside.flatten.reverse ++ opener :: before) next) :
    closeOne construct before opener (inside.flatten ++ next) =
      .ok (inside.flatten ++ Token.generated construct.closer opener :: next) := by
  have quiet := level.quiet atClosers (opener :: before) next
  cases next with
  | nil =>
      have insert := insertIdx_length_append inside.flatten []
        (Token.generated construct.closer opener)
      rw [List.append_nil] at insert
      simp only [closeOne, List.append_nil, Region.after_end level quiet, insert]
  | cons t rest =>
      obtain ⟨closes, silent⟩ := yields
      simp only [closeOne, Region.after_closer level quiet silent closes,
        insertIdx_length_append]

/-! ## A `)` that closes a group -/

theorem closesGroup_cons_alone {t : Token} (alone : t.Alone) (depth : Nat) (earlier : Tokens) :
    closesGroup depth (t :: earlier) = closesGroup depth earlier := by
  simp [closesGroup, alone.1, alone.2]

theorem closesGroup_cons_closer {t : Token} (closes : t.tag.isCloser = true) (depth : Nat)
    (earlier : Tokens) :
    closesGroup depth (t :: earlier) = closesGroup (depth + 1) earlier := by
  simp [closesGroup, closes]

theorem closesGroup_cons_opener {t : Token} (opens : t.tag.isOpener = true) (depth : Nat)
    (earlier : Tokens) :
    closesGroup (depth + 1) (t :: earlier) = closesGroup depth earlier := by
  simp [closesGroup, opens, Tag.isCloser_of_isOpener opens]

theorem closesGroup_zero_opener {t : Token} (opens : t.tag.isOpener = true)
    (earlier : Tokens) :
    closesGroup 0 (t :: earlier) = (t.tag == .parenStart) := by
  simp [closesGroup, opens, Tag.isCloser_of_isOpener opens]

/-- Counting back passes over a level forest. -/
theorem closesGroup_flatten {forest : Forest Token} (level : forest.Level) (depth : Nat)
    (earlier : Tokens) :
    closesGroup depth (forest.flatten.reverse ++ earlier) = closesGroup depth earlier := by
  induction forest generalizing depth earlier with
  | nil => rfl
  | leaf t next ih =>
      simp only [Forest.flatten, List.reverse_cons, List.append_assoc, List.singleton_append]
      rw [ih level.2, closesGroup_cons_alone level.1]
  | pair o inside c next ihInside ihNext =>
      obtain ⟨⟨opens, closes⟩, inner, outer⟩ := level
      simp only [Forest.flatten, List.reverse_cons, List.reverse_append, List.append_assoc,
        List.cons_append, List.nil_append]
      rw [ihNext outer, closesGroup_cons_closer closes, ihInside inner,
        closesGroup_cons_opener opens]

/-- An opener and a closer, which is a `)` only of a `(`. -/
def Groups (opener closer : Token) : Prop :=
  opener.Brackets closer ∧ (closer.tag = .parenEnd → opener.tag = .parenStart)

theorem endsCall_outdent_eq_false_iff {before after : Tokens} {t : Token}
    (outdent : t.tag = .outdent) :
    endsCall before t after = false ↔
      ∀ previous earlier, before = previous :: earlier → previous.tag = .parenEnd →
        closesGroup 0 earlier = true := by
  cases before with
  | nil => simp [endsCall, outdent]
  | cons previous earlier => simp [endsCall, outdent]

/-- A call does not stop at an `OUTDENT` right after a forest in which every `)`
closes a `(`, unless it stops there without the forest. -/
theorem endsCall_outdent {forest : Forest Token} (groups : forest.Nests Token.Alone Groups)
    {before after : Tokens} {t : Token} (outdent : t.tag = .outdent)
    (silent : endsCall before t after = false) :
    endsCall (forest.flatten.reverse ++ before) t after = false := by
  induction forest generalizing before with
  | nil => exact silent
  | leaf first next ih =>
      obtain ⟨alone, outer⟩ := groups
      simp only [Forest.flatten, List.reverse_cons, List.append_assoc, List.singleton_append]
      refine ih outer ((endsCall_outdent_eq_false_iff outdent).2 ?_)
      rintro previous earlier same tag
      obtain ⟨rfl, -⟩ := List.cons.inj same
      have closes : first.tag.isCloser = true := by rw [tag]; decide
      rw [alone.2] at closes
      cases closes
  | pair o inside c next ihInside ihNext =>
      obtain ⟨⟨⟨opens, -⟩, group⟩, inner, outer⟩ := groups
      simp only [Forest.flatten, List.reverse_cons, List.reverse_append, List.append_assoc,
        List.cons_append, List.nil_append]
      refine ihNext outer ((endsCall_outdent_eq_false_iff outdent).2 ?_)
      rintro previous earlier same tag
      obtain ⟨rfl, rfl⟩ := List.cons.inj same
      have level : inside.Level := inner.mono (fun _ h => h) fun _ _ h => h.1
      rw [closesGroup_flatten level, closesGroup_zero_opener opens, group tag]
      rfl

/-! ## Calls and indexes -/

/-- The plain closer that may stand in the place of a dedicated one. -/
def plain : Tag → Tag
  | .callEnd => .parenEnd
  | .indexEnd => .bracketEnd
  | t => t

/-- The closers that close a construct when its region reaches them. -/
def Construct.own (construct : Construct) : List Tag :=
  [plain construct.closer, construct.closer]

@[simp] theorem Construct.mem_own {construct : Construct} {tag : Tag} :
    tag ∈ construct.own ↔ tag = plain construct.closer ∨ tag = construct.closer := by
  simp [Construct.own]

/-- The stream goes on with a closer that is none of these, or ends. -/
def Leaves (own : List Tag) (next : Tokens) : Prop :=
  ∀ t ∈ next.head?, t.tag.isCloser = true ∧ t.tag ∉ own

/-- What the two constructs have in common. -/
structure Construct.Regular (construct : Construct) : Prop where
  atClosers : construct.EndsAtClosers
  opens : construct.opener.isOpener = true
  partner : construct.opener.partner? = some construct.closer
  notOutdent : .outdent ∉ construct.own
  ends_own : ∀ {before after : Tokens} {t : Token}, t.tag ∈ construct.own →
    construct.ends before t after = true
  yields : ∀ {inside : Forest Token} {before next : Tokens} {opener : Token},
    inside.Nests Token.Alone Groups → opener.tag = construct.opener →
      Leaves construct.own next → construct.Yields (inside.flatten.reverse ++ opener :: before) next

theorem call_regular : call.Regular where
  atClosers := call_endsAtClosers
  opens := rfl
  partner := rfl
  notOutdent := by decide
  ends_own := by
    intro before after t own
    have tag : t.tag = .parenEnd ∨ t.tag = .callEnd := by
      simpa [call, plain] using own
    rcases tag with tag | tag <;> simp [call, endsCall, tag]
  yields := by
    intro inside before next opener groups opens leaves
    cases next with
    | nil => trivial
    | cons t rest =>
        obtain ⟨closes, foreign⟩ := leaves t rfl
        have other : t.tag ≠ .parenEnd ∧ t.tag ≠ .callEnd := by
          simpa [call, plain, not_or] using foreign
        refine ⟨closes, ?_⟩
        by_cases outdent : t.tag = .outdent
        · have silent : endsCall (opener :: before) t rest = false := by
            rw [endsCall_outdent_eq_false_iff outdent]
            rintro previous earlier same tag
            obtain ⟨rfl, -⟩ := List.cons.inj same
            rw [opens] at tag
            cases tag
          exact endsCall_outdent groups outdent silent
        · simp only [call, endsCall]
          split <;> simp_all

theorem index_regular : index.Regular where
  atClosers := index_endsAtClosers
  opens := rfl
  partner := rfl
  notOutdent := by decide
  ends_own := by
    intro before after t own
    have tag : t.tag = .bracketEnd ∨ t.tag = .indexEnd := by
      simpa [index, plain] using own
    rcases tag with tag | tag <;> simp [index, endsIndex, tag]
  yields := by
    intro inside before next opener groups opens leaves
    cases next with
    | nil => trivial
    | cons t rest =>
        obtain ⟨closes, foreign⟩ := leaves t rfl
        have other : t.tag ≠ .bracketEnd ∧ t.tag ≠ .indexEnd := by
          simpa [index, plain, not_or] using foreign
        exact ⟨closes, by simp [index, endsIndex, other.1, other.2]⟩

end TokenLayout.Closers
