/-
# TokenLayout.Proofs.Restoration.Closers -- closers that come back

The lexer writes the closers of calls and indexes as plain ones and leaves out
those of open calls.  That is a permitted erasure of the stream with its closers
(`Phrase.recloses`), and the passes undo those.  An open call needs a closer that
is no call's behind it, or the end of the stream (`Rendering.Yields`): it is the
last in its block, and all other phrases may stand anywhere.
-/
import TokenLayout.Proofs.Erasure
import TokenLayout.Proofs.Renderings

namespace TokenLayout

set_option autoImplicit false

open Rendering (Nested)

/-- An entry with its closers back, and what became of them in the lexed stream. -/
def Entry.erasure : Entry → Erasure
  | pair _ resolved .closers => [(resolved, .weaken)]
  | resolvedOnly t .closers => [(t, .drop)]
  | entry => (entry.shown Repair.closers.done).map fun t => (t, .keep)

namespace Rendering

def erasure (rendering : Rendering) : Erasure :=
  rendering.flatMap Entry.erasure

theorem source_erasure (rendering : Rendering) :
    rendering.erasure.source = rendering.shown Repair.closers.done := by
  induction rendering with
  | nil => rfl
  | cons entry rest ih =>
      have one : Erasure.source entry.erasure = entry.shown Repair.closers.done := by
        cases entry with
        | both t => rfl
        | pair lexed resolved repair => cases repair <;> rfl
        | lexedOnly t repair => cases repair <;> rfl
        | resolvedOnly t repair => cases repair <;> rfl
      rw [shown_cons, ← one, ← ih, ← Erasure.source_append]
      rfl

/-- Where a call may lack its closer: in front of another closer that is not a call's, or at the
end of the stream. -/
def Yields (later : Erasure) : Prop :=
  ∀ t ∈ later.erased.head?, t.tag.isCloser = true ∧ t.tag ≠ .parenEnd ∧ t.tag ≠ .callEnd

/-- The lexed stream is a permitted erasure of the stream with all closers back, in front of
what meets the needs. -/
structure Recloses (needs : Erasure → Prop) (rendering : Rendering) : Prop where
  nested : Nested Repair.closers.done rendering
  erased : rendering.erasure.erased = rendering.shown Repair.closers.before
  restored : ∀ opened,
    Erasure.restoredFrom opened rendering.erasure = rendering.shown Repair.closers.done
  permitted : ∀ {opened : Tokens} {later : Erasure}, needs later →
    Erasure.permittedFrom opened later = true →
      Erasure.permittedFrom opened (rendering.erasure ++ later) = true

namespace Recloses

variable {needs needs' : Erasure → Prop}

theorem nil : Recloses needs [] :=
  ⟨.nil, rfl, fun _ => rfl, fun _ ok => ok⟩

theorem mono {rendering : Rendering} (recloses : Recloses needs rendering)
    (fewer : ∀ later, needs' later → needs later) : Recloses needs' rendering :=
  ⟨recloses.nested, recloses.erased, recloses.restored,
    fun meets ok => recloses.permitted (fewer _ meets) ok⟩

theorem foldl_pend {rendering : Rendering} (nested : Nested Repair.closers.done rendering)
    (opened : Tokens) : (Erasure.source rendering.erasure).foldl pend opened = opened := by
  obtain ⟨forest, nests, flat⟩ := nested
  rw [source_erasure, ← flat, foldl_pend_flatten nests.level]

theorem append {left right : Rendering} (first : Recloses needs left)
    (second : Recloses needs' right)
    (meets : ∀ later, needs' later → needs (right.erasure ++ later)) :
    Recloses needs' (left ++ right) := by
  have split : erasure (left ++ right) = left.erasure ++ right.erasure := List.flatMap_append
  refine ⟨first.nested.append second.nested, ?_, ?_, ?_⟩
  · rw [split, Erasure.erased_append, first.erased, second.erased, shown_append]
  · intro opened
    rw [split, Erasure.restoredFrom_append, foldl_pend first.nested, first.restored,
      second.restored, shown_append]
  · intro opened later need ok
    rw [split, List.append_assoc]
    exact first.permitted (meets later need) (second.permitted need ok)

/-- A token that is kept and stands alone. -/
theorem single {entry : Entry} {t : Token} (kept : entry.erasure = [(t, .keep)])
    (before : entry.shown Repair.closers.before = [t])
    (done : entry.shown Repair.closers.done = [t]) (alone : t.Alone) : Recloses needs [entry] := by
  have whole : erasure [entry] = [(t, .keep)] := by simp [erasure, kept]
  refine ⟨Nested.nil.cons done alone, ?_, ?_, ?_⟩
  · rw [whole, shown_cons, before]
    rfl
  · intro opened
    rw [whole, shown_cons, done]
    rfl
  · intro opened later _ ok
    rw [whole]
    simpa [Erasure.permittedFrom, Erasure.allowed, pend_alone alone] using ok

/-- An entry that does not show yet. -/
theorem hidden {entry : Entry} (gone : entry.erasure = [])
    (before : entry.shown Repair.closers.before = [])
    (done : entry.shown Repair.closers.done = []) : Recloses needs [entry] := by
  have whole : erasure [entry] = [] := by simp [erasure, gone]
  refine ⟨Nested.nil.hidden done, ?_, ?_, ?_⟩
  · rw [whole, shown_cons, before]
    rfl
  · intro opened
    rw [whole, shown_cons, done]
    rfl
  · intro opened later _ ok
    rwa [whole]

/-- What needs nothing may be followed by anything. -/
theorem followed {left right : Rendering} (first : Recloses (fun _ => True) left)
    (second : Recloses needs right) : Recloses needs (left ++ right) :=
  first.append second fun _ _ => trivial

theorem cons {entry : Entry} {rest : Rendering} (one : Recloses (fun _ => True) [entry])
    (more : Recloses needs rest) : Recloses needs (entry :: rest) :=
  one.followed more

theorem mark {tag : Tag} (alone : (Token.bare tag).Alone) : Recloses needs [.mark tag] :=
  single (t := .bare tag) rfl rfl rfl alone

theorem name (text : String) : Recloses needs [.name text] :=
  single (t := .spelled .identifier text) rfl rfl rfl ⟨rfl, rfl⟩

theorem number (text : String) : Recloses needs [.number text] :=
  single (t := .spelled .number text) rfl rfl rfl ⟨rfl, rfl⟩

/-- Something between an opener, which is kept, and its closer. -/
theorem enclosed {opener closer : Entry} {o c : Token} {fate : Fate} {inside : Rendering}
    (kept : opener.erasure = [(o, .keep)]) (starts : opener.shown Repair.closers.before = [o])
    (starts' : opener.shown Repair.closers.done = [o]) (closes : closer.erasure = [(c, fate)])
    (ends : closer.shown Repair.closers.before = (Erasure.survivor (c, fate)).toList)
    (ends' : closer.shown Repair.closers.done = [c]) (partners : o.Partners c)
    (own : fate = .drop → Token.generated c.tag o = c)
    (may : ∀ opened later, needs later →
      Erasure.allowed opened (Erasure.erased later).head? (c, fate) = true)
    (more : Recloses needs' inside) (meets : ∀ later, needs later → needs' ((c, fate) :: later)) :
    Recloses needs (enclosed opener inside closer) := by
  have split : erasure (Rendering.enclosed opener inside closer) =
      (o, .keep) :: (inside.erasure ++ [(c, fate)]) := by
    simp [Rendering.enclosed, erasure, kept, closes]
  have opens := pend_opener (t := o) partners.1
  have closed := pend_closer (t := c) partners.brackets.2
  refine ⟨more.nested.enclosed starts' ends' partners, ?_, ?_, ?_⟩
  · have last : Erasure.erased [(c, fate)] = closer.shown Repair.closers.before := by
      rw [ends]
      cases fate <;> rfl
    have first : ∀ later : Erasure, Erasure.erased ((o, .keep) :: later) =
        o :: Erasure.erased later := fun _ => rfl
    rw [split, first, Erasure.erased_append, more.erased, last]
    simp [Rendering.enclosed, shown, starts]
  · intro opened
    have last : (if fate = .drop then Token.generated c.tag o else c) = c := by
      split
      · rename_i dropped
        exact own dropped
      · rfl
    rw [split, shown_enclosed starts' ends']
    simp only [Erasure.restoredFrom, opens, Erasure.restoredFrom_append, foldl_pend more.nested,
      more.restored, List.headD_cons, last]
    rfl
  · intro opened later need ok
    have inner : Erasure.permittedFrom (o :: opened) ((c, fate) :: later) = true := by
      simp only [Erasure.permittedFrom, closed, List.tail_cons, ok, may _ _ need, Bool.and_self]
    have within := more.permitted (meets later need) inner
    rw [split]
    simp only [List.cons_append, List.append_assoc, List.nil_append, Erasure.permittedFrom, opens,
      Erasure.allowed, Bool.true_and]
    exact within

theorem group {inside : Rendering} (more : Recloses (fun _ => True) inside) :
    Recloses needs (Rendering.enclosed (.mark .parenStart) inside (.mark .parenEnd)) :=
  more.enclosed (o := .bare .parenStart) (c := .bare .parenEnd) rfl rfl rfl rfl rfl rfl ⟨rfl, rfl⟩
    (fun dropped => by cases dropped) (fun _ _ _ => rfl) fun _ _ => trivial

theorem call {arguments : Rendering} (more : Recloses (fun _ => True) arguments) :
    Recloses needs (Rendering.enclosed (.mark .callStart) arguments .callEnd) :=
  more.enclosed (o := .bare .callStart) (c := .bare .callEnd) rfl rfl rfl rfl rfl rfl ⟨rfl, rfl⟩
    (fun dropped => by cases dropped) (fun _ _ _ => rfl) fun _ _ => trivial

theorem index {inside : Rendering} (more : Recloses (fun _ => True) inside) :
    Recloses needs (Rendering.enclosed (.mark .indexStart) inside .indexEnd) :=
  more.enclosed (o := .bare .indexStart) (c := .bare .indexEnd) rfl rfl rfl rfl rfl rfl ⟨rfl, rfl⟩
    (fun dropped => by cases dropped) (fun _ _ _ => rfl) fun _ _ => trivial

/-- A call without its closer may end with another one. -/
theorem openCall {arguments : Rendering} (more : Recloses Yields arguments) :
    Recloses Yields (Rendering.enclosed (.mark .callStart) arguments .openCallEnd) := by
  refine more.enclosed (o := .bare .callStart)
    (c := .generated .callEnd (.bare .callStart)) rfl rfl rfl rfl rfl rfl ⟨rfl, rfl⟩ (fun _ => rfl)
    ?_ fun later yields => yields
  intro opened later yields
  simp only [Erasure.allowed, Token.generated, Token.bare, Option.all_eq_true, Bool.and_eq_true,
    bne_iff_ne]
  intro n first
  obtain ⟨closes, notParen, notCall⟩ := yields n first
  exact ⟨⟨closes, notParen⟩, notCall⟩

/-- The end of a block is not a call's, so the block may end with a call without its closer. -/
theorem block {statements : Rendering} (more : Recloses Yields statements) :
    Recloses needs (block statements) := by
  refine more.enclosed (o := .bare .indent) (c := .bare .outdent) rfl rfl rfl rfl rfl rfl ⟨rfl, rfl⟩
    (fun dropped => by cases dropped) (fun _ _ _ => rfl) ?_
  intro later _ t first
  obtain rfl : Token.bare .outdent = t := by simpa [Erasure.erased, Erasure.survivor] using first
  exact ⟨rfl, by decide, by decide⟩

theorem mapping {members : Rendering} (more : Recloses (fun _ => True) members) :
    Recloses needs (Rendering.mapping members) :=
  more.enclosed (o := .spelled .indent "\x7b") (c := .spelled .outdent "\x7d") rfl rfl rfl rfl rfl
    rfl ⟨rfl, rfl⟩ (fun dropped => by cases dropped) (fun _ _ _ => rfl) fun _ _ => trivial

theorem classBody {members : Rendering} (more : Recloses (fun _ => True) members) :
    Recloses needs (Rendering.classBody members) :=
  .cons (.hidden rfl rfl rfl) (more.mapping.followed (.hidden rfl rfl rfl))

theorem comma {left right : Rendering} (first : Recloses (fun _ => True) left)
    (second : Recloses needs right) : Recloses needs (left ++ .mark .comma :: right) :=
  first.followed (.cons (.mark ⟨rfl, rfl⟩) second)

theorem separator (statement : Rendering) : Recloses needs [separator statement] := by
  unfold Rendering.separator
  split
  · exact hidden rfl rfl rfl
  · exact mark ⟨rfl, rfl⟩

end Recloses

end Rendering

open Rendering (Recloses)

theorem Simple.recloses {needs : Erasure → Prop} (simple : Simple) :
    Recloses needs simple.rendering := by
  have anywhere : Recloses (fun _ => True) simple.rendering :=
    simple.rendering_cases .name .number .nil .comma fun callee _ more =>
      .cons (.name callee) more.call
  exact anywhere.mono fun _ _ => trivial

theorem Argument.recloses {needs : Erasure → Prop} (argument : Argument) :
    Recloses needs argument.rendering := by
  cases argument with
  | plain value => exact value.recloses
  | group value => exact value.recloses.group

theorem OpenCall.recloses (last : OpenCall) : Recloses Rendering.Yields last.rendering := by
  have nothing : Recloses (fun _ => True) [] := .nil
  refine last.rendering_cases nothing Argument.recloses .comma ?_ .comma ?_
  · intro arguments more
    exact more.mono fun _ _ => trivial
  · intro callee arguments more
    exact .cons (.name callee) more.openCall

/-- What a phrase needs of the stream after it. -/
def Phrase.Kind.needs : Kind → Erasure → Prop
  | block => Rendering.Yields
  | _ => fun _ => True

theorem Phrase.recloses {kind : Kind} (phrase : Phrase kind) :
    Recloses kind.needs phrase.rendering := by
  induction phrase with
  | name text => exact .name text
  | number text => exact .number text
  | group inside ih => exact ih.group
  | call callee arguments ih => exact .cons (.name callee) ih.call
  | index base inside ih => exact .cons (.name base) ih.index
  | mapping members ih => exact ih.mapping
  | emptyMapping => exact .mapping (.single (t := .bare .colon) rfl rfl rfl ⟨rfl, rfl⟩)
  | function body ih => exact .cons (.mark ⟨rfl, rfl⟩) ih.block
  | noArgument => exact .nil
  | argument first rest ihFirst ihRest =>
      exact Rendering.joined_cases ihFirst ihRest fun _ _ => ihFirst.comma ihRest
  | lastMember key value ih => exact .cons (.name key) (.cons (.mark ⟨rfl, rfl⟩) ih)
  | member key value rest ihValue ihRest =>
      exact .cons (.name key) (.cons (.mark ⟨rfl, rfl⟩) (ihValue.comma ihRest))
  | evaluate value ih => exact ih
  | assign target value ih => exact .cons (.name target) (.cons (.mark ⟨rfl, rfl⟩) ih)
  | guarded body negated condition =>
      have trailing : Recloses (fun _ => True) [.trailing negated] := by
        cases negated <;> exact .single rfl rfl rfl ⟨rfl, rfl⟩
      exact body.recloses.followed (.cons trailing (.name condition))
  | branch negated condition body otherwise ihBody ihOtherwise =>
      refine .cons (.mark (by cases negated <;> exact ⟨rfl, rfl⟩)) ?_
      exact condition.recloses.followed (ihBody.block.followed ihOtherwise)
  | classOf className parent members ih =>
      refine .cons (.mark ⟨rfl, rfl⟩) (.cons (.name className) ?_)
      cases parent with
      | none => exact ih.classBody
      | some parent => exact .cons (.mark ⟨rfl, rfl⟩) (.cons (.name parent) ih.classBody)
  | noAlternative => exact .nil
  | alternative body ih => exact .cons (.mark ⟨rfl, rfl⟩) ih.block
  | finish last =>
      cases last with
      | none => exact .nil
      | some last => exact last.recloses
  | sequence first rest ihFirst ihRest =>
      refine Rendering.joined_cases (ihFirst.mono fun _ _ => trivial) ihRest ?_
      intro _ _
      exact ihFirst.followed (.cons (.separator _) ihRest)

/-- The passes for calls and indexes bring back every closer. -/
theorem Phrase.close_rendering (program : Phrase .block) :
    ∃ called,
      Closers.close Closers.call (program.rendering.shown Repair.closers.before) = .ok called ∧
        Closers.close Closers.index called = .ok (program.rendering.shown Repair.closers.done) := by
  have recloses := program.recloses
  obtain ⟨forest, nests, flat⟩ := recloses.nested
  have balanced : ensureBalance program.rendering.erasure.source = .ok () := by
    rw [Rendering.source_erasure]
    exact (ensureBalance_iff_forest _).2 ⟨forest, nests, flat⟩
  have nothing : Rendering.Yields [] := by
    intro t first
    cases first
  have permitted : Erasure.permittedFrom [] program.rendering.erasure = true := by
    rw [← List.append_nil program.rendering.erasure]
    exact recloses.permitted nothing rfl
  rw [← recloses.erased, ← recloses.restored []]
  exact Erasure.close_restored balanced permitted

end TokenLayout
