/-
# TokenLayout.Proofs.Restoration.Terminators -- terminators after blocks

Behind a phrase that ends with a block a terminator is due, unless the stream goes
on with a token that continues the construct or is at its end.  So the induction on
the phrase leaves open what is due behind it (`Rendering.dueAfter`), and where two
phrases meet it is settled: nothing within a construct, and a terminator between
two statements (`Rendering.Terminates.sequence`).
-/
import TokenLayout.Proofs.Passes
import TokenLayout.Proofs.Renderings

namespace TokenLayout

set_option autoImplicit false

open Rendering (Begins)

open Statements (due terminated)

namespace Rendering

/-- The terminator behind a rendering that ends with a block, where one is due. -/
def dueAfter (rendering : Rendering) (next : Option Token) : Tokens :=
  if rendering.endsBlock then due (.bare .outdent) next else []

/-- The pass for terminators treats the rendering as it should. -/
def Terminates (rendering : Rendering) : Prop :=
  ∀ rest, terminated (rendering.shown Repair.mappings.done ++ rest) =
    rendering.resolved ++ (dueAfter rendering rest.head? ++ terminated rest)

namespace Terminates

theorem nil : Terminates [] := fun _ => rfl

theorem append {left right : Rendering} (first : Terminates left) (second : Terminates right)
    (shows : right.resolved ≠ [])
    (quiet : ∀ rest, dueAfter left (right.shown Repair.mappings.done ++ rest).head? = []) :
    Terminates (left ++ right) := by
  intro rest
  have whole : resolved (left ++ right) = left.resolved ++ right.resolved := shown_append _ _ _
  have after : dueAfter (left ++ right) = dueAfter right := by
    funext next
    rw [dueAfter, endsBlock_append shows, dueAfter]
  rw [shown_append, List.append_assoc, first, quiet, second, whole, after]
  simp

/-- Behind what ends no block nothing is due. -/
theorem followed {left right : Rendering} (first : Terminates left)
    (noBlock : left.endsBlock = false) (second : Terminates right) (shows : right.resolved ≠ []) :
    Terminates (left ++ right) :=
  first.append second shows fun _ => by simp [dueAfter, noBlock]

/-- Nor is it where the construct goes on. -/
theorem continued {left rest : Rendering} {entry : Entry} {t : Token} (first : Terminates left)
    (second : Terminates (entry :: rest)) (before : entry.shown Repair.mappings.done = [t])
    (done : entry.shown Repair.terminators.done = [t])
    (continues : Statements.continuesBlock t = true) : Terminates (left ++ entry :: rest) := by
  refine first.append second ?_ ?_
  · rw [resolved, shown_cons, done]
    simp
  · intro stream
    have head : (shown Repair.mappings.done (entry :: rest) ++ stream).head? = some t := by
      rw [shown_cons, before]
      rfl
    rw [head]
    simp [dueAfter, due, continues]

theorem single {entry : Entry} {t : Token} (before : entry.shown Repair.mappings.done = [t])
    (done : entry.shown Repair.terminators.done = [t])
    (same : ∀ next, due t next = if t.tag == .outdent then due (.bare .outdent) next else []) :
    Terminates [entry] := by
  intro rest
  have ends : endsBlock [entry] = (t.tag == .outdent) := endsBlock_concat done []
  rw [dueAfter, ends, ← same, resolved, shown_cons, shown_cons, before, done]
  rfl

theorem plain {entry : Entry} {t : Token} (before : entry.shown Repair.mappings.done = [t])
    (done : entry.shown Repair.terminators.done = [t]) (other : t.tag ≠ .outdent) :
    Terminates [entry] :=
  single before done fun next => by simp [Statements.due_other other, other]

theorem hidden {entry : Entry} (before : entry.shown Repair.mappings.done = [])
    (done : entry.shown Repair.terminators.done = []) : Terminates [entry] := by
  intro rest
  have ends : dueAfter [entry] rest.head? = [] := by
    simp [dueAfter, endsBlock, resolved, shown, done]
  rw [ends, resolved, shown_cons, shown_cons, before, done]
  rfl

/-- A token in front that ends no block. -/
theorem cons {entry : Entry} {t : Token} {rest : Rendering}
    (before : entry.shown Repair.mappings.done = [t])
    (done : entry.shown Repair.terminators.done = [t]) (other : t.tag ≠ .outdent)
    (more : Terminates rest) : Terminates (entry :: rest) := by
  have ends : endsBlock (entry :: rest) = endsBlock rest := by
    by_cases shows : rest.resolved = []
    · have alone : resolved (entry :: rest) = [t] := by
        rw [resolved, shown_cons, done, ← resolved, shows]
        rfl
      simp [endsBlock, alone, shows, other]
    · exact endsBlock_append shows [entry]
  intro stream
  have here : dueAfter (entry :: rest) = dueAfter rest := by
    funext next
    rw [dueAfter, ends, dueAfter]
  rw [here, resolved, shown_cons, shown_cons, before, done]
  simp only [List.cons_append, terminated, Statements.due_other other, List.nil_append,
    more stream]
  rfl

theorem mark {tag : Tag} (other : tag ≠ .outdent) : Terminates [.mark tag] :=
  plain (t := .bare tag) rfl rfl other

theorem name (text : String) : Terminates [.name text] :=
  plain (t := .spelled .identifier text) rfl rfl fun tag => by cases tag

theorem number (text : String) : Terminates [.number text] :=
  plain (t := .spelled .number text) rfl rfl fun tag => by cases tag

/-- A token of a tag that ends no block, in front. -/
theorem mark_cons {tag : Tag} (other : tag ≠ .outdent) {rest : Rendering}
    (more : Terminates rest) : Terminates (.mark tag :: rest) :=
  more.cons (t := .bare tag) rfl rfl other

theorem name_cons (text : String) {rest : Rendering} (more : Terminates rest) :
    Terminates (.name text :: rest) :=
  more.cons (t := .spelled .identifier text) rfl rfl fun tag => by cases tag

theorem comma {left right : Rendering} (first : Terminates left) (second : Terminates right) :
    Terminates (left ++ .mark .comma :: right) :=
  first.continued (second.mark_cons (by decide)) rfl rfl rfl

/-- Something between an opener and a closer. -/
theorem enclosed {opener closer : Entry} {o c : Token} {inside : Rendering}
    (more : Terminates inside) (starts : opener.shown Repair.mappings.done = [o])
    (starts' : opener.shown Repair.terminators.done = [o]) (other : o.tag ≠ .outdent)
    (ends : closer.shown Repair.mappings.done = [c])
    (ends' : closer.shown Repair.terminators.done = [c])
    (continues : Statements.continuesBlock c = true) (last : Terminates [closer]) :
    Terminates (enclosed opener inside closer) :=
  (more.continued last ends ends' continues).cons starts starts' other

theorem group {inside : Rendering} (more : Terminates inside) :
    Terminates (Rendering.enclosed (.mark .parenStart) inside (.mark .parenEnd)) :=
  more.enclosed (o := .bare .parenStart) (c := .bare .parenEnd) rfl rfl (by decide) rfl rfl rfl
    (mark (by decide))

theorem call {arguments : Rendering} (more : Terminates arguments) :
    Terminates (Rendering.enclosed (.mark .callStart) arguments .callEnd) :=
  more.enclosed (o := .bare .callStart) (c := .bare .callEnd) rfl rfl (by decide) rfl rfl rfl
    (plain (t := .bare .callEnd) rfl rfl (by decide))

theorem openCall {arguments : Rendering} (more : Terminates arguments) :
    Terminates (Rendering.enclosed (.mark .callStart) arguments .openCallEnd) :=
  more.enclosed (o := .bare .callStart) (c := .generated .callEnd (.bare .callStart)) rfl rfl
    (by decide) rfl rfl rfl
    (plain (t := .generated .callEnd (.bare .callStart)) rfl rfl (by decide))

theorem index {inside : Rendering} (more : Terminates inside) :
    Terminates (Rendering.enclosed (.mark .indexStart) inside .indexEnd) :=
  more.enclosed (o := .bare .indexStart) (c := .bare .indexEnd) rfl rfl (by decide) rfl rfl rfl
    (plain (t := .bare .indexEnd) rfl rfl (by decide))

theorem mapping {members : Rendering} (more : Terminates members) :
    Terminates (Rendering.mapping members) :=
  more.enclosed (o := .bare .mappingStart) (c := .bare .mappingEnd) rfl rfl (by decide) rfl rfl rfl
    (plain (t := .bare .mappingEnd) rfl rfl (by decide))

theorem block {statements : Rendering} (more : Terminates statements) :
    Terminates (block statements) :=
  more.enclosed (o := .bare .indent) (c := .bare .outdent) rfl rfl (by decide) rfl rfl rfl
    (single rfl rfl fun _ => rfl)

theorem classBody {members : Rendering} (more : Terminates members) :
    Terminates (Rendering.classBody members) :=
  more.mapping.enclosed (o := .generated .indent (.bare .mappingStart))
    (c := .generated .outdent (.bare .mappingStart)) rfl rfl (by decide) rfl rfl rfl
    (single rfl rfl fun next => by cases next <;> rfl)

/-- Between two statements stands a terminator, whether there was one or not. -/
theorem sequence {first rest : Rendering} (one : Terminates first) (more : Terminates rest)
    (begins : Begins rest) : Terminates (first ++ separator first :: rest) := by
  obtain ⟨t, after, starts, begin_⟩ := begins Repair.mappings.done
  obtain ⟨t', after', starts', -⟩ := begins Repair.terminators.done
  have shows : rest.resolved ≠ [] := by simp [resolved, starts']
  unfold separator
  split
  · rename_i ends
    have behind : dueAfter (first ++ .blockTerminator :: rest) = dueAfter rest := by
      funext next
      have split : first ++ .blockTerminator :: rest = (first ++ [.blockTerminator]) ++ rest := by
        simp
      rw [dueAfter, split, endsBlock_append shows, dueAfter]
    intro stream
    have head : (rest.shown Repair.mappings.done ++ stream).head? = some t := by
      rw [starts]
      rfl
    have inserted :
        dueAfter first (some t) = Entry.blockTerminator.shown Repair.terminators.done := by
      simp only [dueAfter, ends, if_true, due, begin_]
      rfl
    have hidden : Entry.blockTerminator.shown Repair.mappings.done = [] := rfl
    have whole : resolved (first ++ .blockTerminator :: rest) =
        first.resolved ++
          (Entry.blockTerminator.shown Repair.terminators.done ++ rest.resolved) := by
      rw [resolved, shown_append, shown_cons]
      rfl
    rw [behind, whole, shown_append, shown_cons, hidden, List.nil_append, List.append_assoc, one,
      head, inserted, more]
    simp
  · rename_i noBlock
    refine one.followed (by simpa using noBlock) (more.mark_cons (by decide)) ?_
    rw [resolved, shown_cons]
    exact fun none => by cases none

end Terminates

end Rendering

open Rendering (Terminates)

theorem Simple.terminates (simple : Simple) : Terminates simple.rendering :=
  simple.rendering_cases .name .number .nil .comma fun callee _ more => .name_cons callee more.call

theorem Simple.endsBlock (simple : Simple) : simple.rendering.endsBlock = false := by
  cases simple with
  | name text => rfl
  | number text => rfl
  | call callee arguments =>
      have closes : Entry.callEnd.shown Repair.terminators.done = [.bare .callEnd] := rfl
      exact Rendering.endsBlock_concat closes (.name callee :: .mark .callStart ::
        Rendering.listed (arguments.map fun text => [.name text]))

theorem Argument.terminates (argument : Argument) : Terminates argument.rendering := by
  cases argument with
  | plain value => exact value.terminates
  | group value => exact value.terminates.group

theorem OpenCall.terminates (last : OpenCall) : Terminates last.rendering :=
  last.rendering_cases .nil Argument.terminates .comma id .comma
    fun callee _ more => .name_cons callee more.openCall

theorem Phrase.terminates {kind : Kind} (phrase : Phrase kind) :
    Terminates phrase.rendering := by
  induction phrase with
  | name text => exact .name text
  | number text => exact .number text
  | group inside ih => exact ih.group
  | call callee arguments ih => exact .name_cons callee ih.call
  | index base inside ih => exact .name_cons base ih.index
  | mapping members ih => exact ih.mapping
  | emptyMapping => exact .mapping (.hidden rfl rfl)
  | function body ih => exact .mark_cons (by decide) ih.block
  | noArgument => exact .nil
  | argument first rest ihFirst ihRest =>
      exact Rendering.joined_cases ihFirst ihRest fun _ _ => ihFirst.comma ihRest
  | lastMember key value ih => exact .name_cons key (.mark_cons (by decide) ih)
  | member key value rest ihValue ihRest =>
      exact .name_cons key (.mark_cons (by decide) (ihValue.comma ihRest))
  | evaluate value ih => exact ih
  | assign target value ih => exact .name_cons target (.mark_cons (by decide) ih)
  | guarded body negated condition =>
      refine body.terminates.followed body.endsBlock ?_ ?_
      · cases negated
        · exact .cons (t := .bare .postIf) rfl rfl (by decide) (.name condition)
        · exact .cons (t := .bare .postUnless) rfl rfl (by decide) (.name condition)
      · cases negated <;> exact fun none => by cases none
  | branch negated condition body otherwise ihBody ihOtherwise =>
      refine .mark_cons (by cases negated <;> decide) ?_
      refine condition.terminates.followed condition.endsBlock ?_ ?_
      · cases otherwise with
        | noAlternative =>
            have block := ihBody.block
            rwa [rendering, List.append_nil]
        | alternative body => exact ihBody.block.continued ihOtherwise rfl rfl rfl
      · exact fun none => by cases none
  | classOf className parent members ih =>
      refine .mark_cons (by decide) (.name_cons className ?_)
      cases parent with
      | none => exact ih.classBody
      | some parent => exact .mark_cons (by decide) (.name_cons parent ih.classBody)
  | noAlternative => exact .nil
  | alternative body ih => exact .mark_cons (by decide) ih.block
  | finish last =>
      cases last with
      | none => exact .nil
      | some last => exact last.terminates
  | sequence first rest ihFirst ihRest =>
      refine Rendering.joined_cases ihFirst ihRest ?_
      intro _ some
      exact ihFirst.sequence ihRest (rest.begins_block.resolve_left some)

/-- The pass for terminators ends the statements that end with a block. -/
theorem Phrase.terminated_rendering (program : Phrase .block) :
    terminated (program.rendering.shown Repair.mappings.done) = program.rendering.resolved := by
  have whole := program.terminates []
  have nothing : ∀ rendering : Rendering, rendering.dueAfter none = [] := by
    intro rendering
    unfold Rendering.dueAfter
    split <;> rfl
  rw [List.append_nil, List.head?_nil, nothing] at whole
  rw [whole]
  simp [terminated]

end TokenLayout
