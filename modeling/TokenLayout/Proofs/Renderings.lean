/-
# TokenLayout.Proofs.Renderings -- what all renderings have in common

A rendering is put together from a few constructions, so what holds of simple
expressions and of calls without their closers is found by going through these
(`Simple.rendering_cases`, `OpenCall.rendering_cases`).  Once the closers are
back, the pairs of a rendering nest (`Phrase.nested`); and whatever is repaired,
a statement begins with a token that can start one (`Phrase.begins`).
-/
import TokenLayout.Proofs.Forest
import TokenLayout.Proofs.Programs
import TokenLayout.Pass.Statements

namespace TokenLayout

set_option autoImplicit false

namespace Rendering

theorem shown_cons (repairs : List Repair) (entry : Entry) (rest : Rendering) :
    shown repairs (entry :: rest) = entry.shown repairs ++ shown repairs rest :=
  List.flatMap_cons

theorem shown_append (repairs : List Repair) (left right : Rendering) :
    shown repairs (left ++ right) = shown repairs left ++ shown repairs right :=
  List.flatMap_append

theorem shown_enclosed {repairs : List Repair} {opener closer : Entry} {o c : Token}
    (opens : opener.shown repairs = [o]) (closes : closer.shown repairs = [c])
    (inside : Rendering) :
    shown repairs (enclosed opener inside closer) = o :: (shown repairs inside ++ [c]) := by
  simp [enclosed, shown, opens, closes]

/-- What holds of two renderings, and of the two joined, holds of what `joined` makes of them. -/
theorem joined_cases {holds : Rendering → Prop} {left right : Rendering} {between : Entry}
    (first : holds left) (second : holds right)
    (both : left ≠ [] → right ≠ [] → holds (left ++ between :: right)) :
    holds (joined left between right) := by
  unfold joined
  split
  · exact second
  · rename_i some
    split
    · exact first
    · rename_i some'
      exact both (by simpa using some) (by simpa using some')

theorem listed_cases {holds : Rendering → Prop} {items : List Rendering} (nil : holds [])
    (comma : ∀ {left right}, holds left → holds right → holds (left ++ .mark .comma :: right))
    (each : ∀ item ∈ items, holds item) : holds (listed items) := by
  induction items with
  | nil => exact nil
  | cons item rest ih =>
      have first := each item (.head _)
      have second := ih fun other member => each other (.tail _ member)
      exact joined_cases first second fun _ _ => comma first second

end Rendering

/-- What holds of names, numbers and calls on what it holds of, holds of a simple expression. -/
theorem Simple.rendering_cases {holds : Rendering → Prop} (name : ∀ text, holds [.name text])
    (number : ∀ text, holds [.number text]) (nil : holds [])
    (comma : ∀ {left right}, holds left → holds right → holds (left ++ .mark .comma :: right))
    (call : ∀ callee {arguments}, holds arguments →
      holds (.name callee :: Rendering.enclosed (.mark .callStart) arguments .callEnd))
    (simple : Simple) : holds simple.rendering := by
  cases simple with
  | name text => exact name text
  | number text => exact number text
  | call callee arguments =>
      refine call callee (Rendering.listed_cases nil comma ?_)
      intro item member
      obtain ⟨text, -, rfl⟩ := List.mem_map.1 member
      exact name text

/-- The arguments of a call without a closer may be less particular about what comes after them
than the call itself. -/
theorem OpenCall.rendering_cases {plain holds : Rendering → Prop} (nil : plain [])
    (argument : ∀ argument : Argument, plain argument.rendering)
    (comma : ∀ {left right}, plain left → plain right → plain (left ++ .mark .comma :: right))
    (mono : ∀ {arguments}, plain arguments → holds arguments)
    (last : ∀ {left right}, plain left → holds right → holds (left ++ .mark .comma :: right))
    (call : ∀ callee {arguments}, holds arguments →
      holds (.name callee :: Rendering.enclosed (.mark .callStart) arguments .openCallEnd))
    (openCall : OpenCall) : holds openCall.rendering := by
  have listed : ∀ arguments : List Argument,
      plain (Rendering.listed (arguments.map Argument.rendering)) := by
    intro arguments
    refine Rendering.listed_cases nil comma ?_
    intro item member
    obtain ⟨one, -, rfl⟩ := List.mem_map.1 member
    exact argument one
  induction openCall with
  | single callee arguments => exact call callee (mono (listed arguments))
  | chain callee arguments inner ih =>
      exact call callee (Rendering.joined_cases (mono (listed arguments)) ih fun _ _ =>
        last (listed arguments) ih)

namespace Rendering

variable {repairs : List Repair}

/-! ## Endings -/

theorem endsBlock_concat {entry : Entry} {t : Token}
    (one : entry.shown Repair.terminators.done = [t]) (rendering : Rendering) :
    endsBlock (rendering ++ [entry]) = (t.tag == .outdent) := by
  simp [endsBlock, resolved, shown, one]

theorem endsBlock_append {right : Rendering} (shows : right.resolved ≠ []) (left : Rendering) :
    endsBlock (left ++ right) = endsBlock right := by
  obtain ⟨t, last⟩ : ∃ t, right.resolved.getLast? = some t := by
    cases found : right.resolved.getLast? with
    | none => exact absurd (List.getLast?_eq_none_iff.1 found) shows
    | some t => exact ⟨t, rfl⟩
  have whole : resolved (left ++ right) = left.resolved ++ right.resolved := shown_append _ _ _
  rw [endsBlock, whole, List.getLast?_append, last, endsBlock, last]
  rfl

/-! ## Nesting -/

/-- The pairs of the stream nest. -/
def Nested (repairs : List Repair) (rendering : Rendering) : Prop :=
  ∃ forest : Forest Token, forest.Balanced ∧ forest.flatten = rendering.shown repairs

namespace Nested

theorem nil : Nested repairs [] := ⟨.nil, trivial, rfl⟩

theorem append {left right : Rendering} (first : Nested repairs left)
    (second : Nested repairs right) : Nested repairs (left ++ right) := by
  obtain ⟨forest, nests, flat⟩ := first
  obtain ⟨forest', nests', flat'⟩ := second
  exact ⟨forest.append forest', Forest.nests_append nests nests',
    by rw [Forest.flatten_append, shown_append, flat, flat']⟩

/-- A token that stands alone in front. -/
theorem cons {entry : Entry} {t : Token} {rest : Rendering} (one : entry.shown repairs = [t])
    (alone : t.Alone) (nested : Nested repairs rest) : Nested repairs (entry :: rest) := by
  obtain ⟨forest, nests, flat⟩ := nested
  exact ⟨.leaf t forest, ⟨alone, nests⟩, by rw [shown_cons, one, Forest.flatten, flat]; rfl⟩

/-- An entry that does not show. -/
theorem hidden {entry : Entry} {rest : Rendering} (none : entry.shown repairs = [])
    (nested : Nested repairs rest) : Nested repairs (entry :: rest) := by
  obtain ⟨forest, nests, flat⟩ := nested
  exact ⟨forest, nests, by rw [shown_cons, none, flat]; rfl⟩

theorem enclosed {opener closer : Entry} {o c : Token} {inside : Rendering}
    (opens : opener.shown repairs = [o]) (closes : closer.shown repairs = [c])
    (partners : o.Partners c) (nested : Nested repairs inside) :
    Nested repairs (enclosed opener inside closer) := by
  obtain ⟨forest, nests, flat⟩ := nested
  exact ⟨.pair o forest c .nil, ⟨partners, nests, trivial⟩,
    by rw [shown_enclosed opens closes, Forest.flatten, flat]; rfl⟩

theorem name (text : String) {rest : Rendering} (nested : Nested repairs rest) :
    Nested repairs (.name text :: rest) :=
  cons rfl ⟨rfl, rfl⟩ nested

theorem comma {left right : Rendering} (first : Nested repairs left)
    (second : Nested repairs right) : Nested repairs (left ++ .mark .comma :: right) :=
  first.append (cons rfl ⟨rfl, rfl⟩ second)

theorem names (texts : List String) :
    Nested repairs (listed (texts.map fun text => [.name text])) := by
  refine listed_cases nil comma ?_
  intro item member
  obtain ⟨text, -, rfl⟩ := List.mem_map.1 member
  exact name text nil

theorem group {inside : Rendering} (nested : Nested repairs inside) :
    Nested repairs (Rendering.enclosed (.mark .parenStart) inside (.mark .parenEnd)) :=
  nested.enclosed rfl rfl ⟨rfl, rfl⟩

theorem call (closers : .closers ∈ repairs) {arguments : Rendering}
    (nested : Nested repairs arguments) :
    Nested repairs (Rendering.enclosed (.mark .callStart) arguments .callEnd) :=
  nested.enclosed (c := .bare .callEnd) rfl (if_pos closers) ⟨rfl, rfl⟩

theorem openCall (closers : .closers ∈ repairs) {arguments : Rendering}
    (nested : Nested repairs arguments) :
    Nested repairs (Rendering.enclosed (.mark .callStart) arguments .openCallEnd) :=
  nested.enclosed (c := .generated .callEnd (.bare .callStart)) rfl (if_pos closers) ⟨rfl, rfl⟩

theorem index (closers : .closers ∈ repairs) {inside : Rendering} (nested : Nested repairs inside) :
    Nested repairs (Rendering.enclosed (.mark .indexStart) inside .indexEnd) :=
  nested.enclosed (c := .bare .indexEnd) rfl (if_pos closers) ⟨rfl, rfl⟩

theorem block {statements : Rendering} (nested : Nested repairs statements) :
    Nested repairs (block statements) :=
  nested.enclosed rfl rfl ⟨rfl, rfl⟩

/-- Braces change together. -/
theorem mapping {members : Rendering} (nested : Nested repairs members) :
    Nested repairs (Rendering.mapping members) := by
  by_cases marked : .mappings ∈ repairs
  · exact nested.enclosed (if_pos marked) (if_pos marked) ⟨rfl, rfl⟩
  · exact nested.enclosed (if_neg marked) (if_neg marked) ⟨rfl, rfl⟩

theorem emptyColon : Nested repairs [.emptyColon] := by
  by_cases marked : .mappings ∈ repairs
  · exact hidden (if_pos marked) nil
  · exact cons (t := .bare .colon) (if_neg marked) ⟨rfl, rfl⟩ nil

theorem trailing (negated : Bool) {rest : Rendering} (nested : Nested repairs rest) :
    Nested repairs (.trailing negated :: rest) := by
  by_cases retagged : .conditionals ∈ repairs
  · exact cons (if_pos retagged) (by cases negated <;> exact ⟨rfl, rfl⟩) nested
  · exact cons (if_neg retagged) (by cases negated <;> exact ⟨rfl, rfl⟩) nested

theorem separator (statement : Rendering) {rest : Rendering} (nested : Nested repairs rest) :
    Nested repairs (separator statement :: rest) := by
  unfold Rendering.separator
  split
  · by_cases ended : .terminators ∈ repairs
    · exact cons (t := .explicit .terminator (.bare .outdent)) (if_pos ended) ⟨rfl, rfl⟩ nested
    · exact hidden (if_neg ended) nested
  · exact cons rfl ⟨rfl, rfl⟩ nested

/-- So do the two halves of a class body. -/
theorem classBody {members : Rendering} (nested : Nested repairs members) :
    Nested repairs (Rendering.classBody members) := by
  by_cases marked : .mappings ∈ repairs
  · exact nested.mapping.enclosed (if_pos marked) (if_pos marked) ⟨rfl, rfl⟩
  · exact hidden (if_neg marked) (nested.mapping.append (hidden (if_neg marked) nil))

end Nested

end Rendering

open Rendering (Nested)

variable {repairs : List Repair}

theorem Simple.nested (closers : .closers ∈ repairs) (simple : Simple) :
    Nested repairs simple.rendering :=
  simple.rendering_cases (fun text => .name text .nil) (fun _ => .cons rfl ⟨rfl, rfl⟩ .nil) .nil
    .comma fun callee _ more => .name callee (more.call closers)

theorem Argument.nested (closers : .closers ∈ repairs) (argument : Argument) :
    Nested repairs argument.rendering := by
  cases argument with
  | plain value => exact value.nested closers
  | group value => exact (value.nested closers).group

theorem OpenCall.nested (closers : .closers ∈ repairs) (last : OpenCall) :
    Nested repairs last.rendering :=
  last.rendering_cases .nil (Argument.nested closers) .comma id .comma
    fun callee _ more => .name callee (more.openCall closers)

theorem Phrase.nested {kind : Phrase.Kind} (closers : .closers ∈ repairs) (phrase : Phrase kind) :
    Nested repairs phrase.rendering := by
  induction phrase with
  | name text => exact .name text .nil
  | number text => exact .cons rfl ⟨rfl, rfl⟩ .nil
  | group inside ih => exact ih.group
  | call callee arguments ih => exact .name callee (ih.call closers)
  | index base inside ih => exact .name base (ih.index closers)
  | mapping members ih => exact ih.mapping
  | emptyMapping => exact Nested.emptyColon.mapping
  | function body ih => exact .cons rfl ⟨rfl, rfl⟩ ih.block
  | noArgument => exact .nil
  | argument first rest ihFirst ihRest =>
      exact Rendering.joined_cases ihFirst ihRest fun _ _ => ihFirst.comma ihRest
  | lastMember key value ih => exact .name key (.cons rfl ⟨rfl, rfl⟩ ih)
  | member key value rest ihValue ihRest =>
      exact .name key (.cons rfl ⟨rfl, rfl⟩ (ihValue.comma ihRest))
  | evaluate value ih => exact ih
  | assign target value ih => exact .name target (.cons rfl ⟨rfl, rfl⟩ ih)
  | guarded body negated condition =>
      exact (body.nested closers).append (.trailing negated (.name condition .nil))
  | branch negated condition body otherwise ihBody ihOtherwise =>
      refine .cons rfl (by cases negated <;> exact ⟨rfl, rfl⟩) ?_
      exact (condition.nested closers).append (ihBody.block.append ihOtherwise)
  | classOf className parent members ih =>
      refine .cons rfl ⟨rfl, rfl⟩ (.name className ?_)
      cases parent with
      | none => exact ih.classBody
      | some parent => exact .cons rfl ⟨rfl, rfl⟩ (.name parent ih.classBody)
  | noAlternative => exact .nil
  | alternative body ih => exact .cons rfl ⟨rfl, rfl⟩ ih.block
  | finish last =>
      cases last with
      | none => exact .nil
      | some last => exact last.nested closers
  | sequence first rest ihFirst ihRest =>
      exact Rendering.joined_cases ihFirst ihRest fun _ _ => ihFirst.append (ihRest.separator _)

/-! ## Beginnings -/

namespace Rendering

/-- Whatever is repaired, the stream begins with a token that starts a statement. -/
def Begins (rendering : Rendering) : Prop :=
  ∀ repairs, ∃ t rest, rendering.shown repairs = t :: rest ∧ Statements.continuesBlock t = false

namespace Begins

theorem cons {entry : Entry} {t : Token} (one : ∀ repairs, entry.shown repairs = [t])
    (starts : Statements.continuesBlock t = false) (rest : Rendering) :
    Begins (entry :: rest) := by
  intro repairs
  exact ⟨t, shown repairs rest, by rw [shown_cons, one]; rfl, starts⟩

theorem name (text : String) (rest : Rendering) : Begins (.name text :: rest) :=
  cons (fun _ => rfl) rfl rest

theorem openBrace (rest : Rendering) : Begins (.openBrace :: rest) := by
  intro repairs
  by_cases marked : .mappings ∈ repairs
  · exact ⟨.bare .mappingStart, shown repairs rest,
      by rw [shown_cons, Entry.openBrace, Entry.shown, if_pos marked]; rfl, rfl⟩
  · exact ⟨.spelled .indent "\x7b", shown repairs rest,
      by rw [shown_cons, Entry.openBrace, Entry.shown, if_neg marked]; rfl, rfl⟩

theorem append {rendering : Rendering} (begins : Begins rendering) (rest : Rendering) :
    Begins (rendering ++ rest) := by
  intro repairs
  obtain ⟨t, more, shows, starts⟩ := begins repairs
  exact ⟨t, more ++ shown repairs rest, by rw [shown_append, shows]; rfl, starts⟩

theorem ne_nil {rendering : Rendering} (begins : Begins rendering) : rendering ≠ [] := by
  rintro rfl
  obtain ⟨t, rest, shows, -⟩ := begins []
  cases shows

end Begins

end Rendering

open Rendering (Begins)

theorem Simple.begins (simple : Simple) : Begins simple.rendering := by
  cases simple with
  | name text => exact .name text _
  | number text => exact .cons (fun _ => rfl) rfl _
  | call callee arguments => exact .name callee _

theorem OpenCall.begins (last : OpenCall) : Begins last.rendering := by
  cases last with
  | single callee arguments => exact .name callee _
  | chain callee arguments last => exact .name callee _

/-- Expressions and statements begin. -/
theorem Phrase.begins {kind : Kind} (phrase : Phrase kind)
    (starts : kind = .expression ∨ kind = .statement) : Begins phrase.rendering := by
  induction phrase with
  | name text => exact .name text _
  | number text => exact .cons (fun _ => rfl) rfl _
  | group inside _ => exact .cons (fun _ => rfl) rfl _
  | call callee arguments _ => exact .name callee _
  | index base inside _ => exact .name base _
  | mapping members _ => exact .openBrace _
  | emptyMapping => exact .openBrace _
  | function body _ => exact .cons (fun _ => rfl) rfl _
  | evaluate value ih => exact ih (.inl rfl)
  | assign target value _ => exact .name target _
  | guarded body negated condition => exact body.begins.append _
  | branch negated condition body otherwise _ _ =>
      refine .cons (fun _ => rfl) ?_ _
      cases negated <;> rfl
  | classOf className parent members _ => exact .cons (fun _ => rfl) rfl _
  | noArgument => simp at starts
  | argument first rest _ _ => simp at starts
  | lastMember key value _ => simp at starts
  | member key value rest _ _ => simp at starts
  | noAlternative => simp at starts
  | alternative body _ => simp at starts
  | finish last => simp at starts
  | sequence first rest _ _ => simp at starts

/-- A block begins unless it is empty. -/
theorem Phrase.begins_block (block : Phrase .block) :
    block.rendering = [] ∨ Begins block.rendering := by
  cases block with
  | finish last =>
      cases last with
      | none => exact .inl rfl
      | some last => exact .inr last.begins
  | sequence first rest =>
      have begins := first.begins (.inr rfl)
      right
      simp only [rendering, Rendering.joined, List.isEmpty_iff, begins.ne_nil, if_false]
      split
      · exact begins
      · exact begins.append _

end TokenLayout
