/-
# TokenLayout.Proofs.Restoration.Conditionals -- conditionals told apart

A conditional that trails ends its statement, so that a terminator, a closer or
nothing comes after its condition (`Cut`).  One that leads has a simple condition,
with a block behind it.  Which of the two a keyword is depends on what comes after
it, so the induction on the phrase is about the stream in front of any stream that
meets the needs of the phrase (`Phrase.Kind.cuts`).
-/
import TokenLayout.Proofs.Renderings
import TokenLayout.Proofs.Rerun

namespace TokenLayout

set_option autoImplicit false

open Rendering (Nested)

/-- What may follow a trailing conditional: the end of its statement. -/
def Cut (rest : Tokens) : Prop :=
  ∀ t ∈ rest.head?, t.tag = .terminator ∨ t.tag.isCloser = true

/-- A conditional trails if its condition ends with the statement. -/
theorem Conditionals.isTrailing_of_cut {condition : Forest Token} (level : condition.Level)
    {keyword : Token} (unbroken : Unbroken keyword condition) {rest : Tokens} (cut : Cut rest) :
    isTrailing [keyword] (condition.flatten ++ rest) = .ok true := by
  have quiet := (quiet_iff_unbroken level keyword [] rest).2 unbroken
  have passed := Region.ending_quiet level quiet 0
  unfold isTrailing Region.after
  rw [passed]
  cases rest with
  | nil => rfl
  | cons t rest =>
      rcases cut t rfl with tag | closes
      · have holds : ∀ before, endsCondition before t rest = true := by
          intro before
          simp only [endsCondition, tag]
        rw [Region.ending_stop _ (holds _)]
        simp [ownsBody, tag]
      · have silent : ∀ before, endsCondition before t rest = false := by
          intro before
          unfold endsCondition
          split
          · rename_i tag
            rw [tag] at closes
            cases closes
          · rename_i tag
            rw [tag] at closes
            cases closes
          · rfl
        rw [Region.ending_closer _ (silent _) closes]

namespace Rendering

/-- The pass for conditionals treats the rendering as it should, in front of what meets the
needs. -/
def Trails (needs : Tokens → Prop) (rendering : Rendering) : Prop :=
  ∀ rest, needs rest → Conditionals.trailed (rendering.shown Repair.closers.done ++ rest) =
    (Conditionals.trailed rest).map (rendering.shown Repair.conditionals.done ++ ·)

namespace Trails

variable {needs needs' : Tokens → Prop}

theorem nil : Trails needs [] := by
  intro rest _
  cases later : Conditionals.trailed rest <;> simp [shown, later, Except.map]

theorem mono {rendering : Rendering} (trails : Trails needs rendering)
    (fewer : ∀ rest, needs' rest → needs rest) : Trails needs' rendering :=
  fun rest need => trails rest (fewer rest need)

theorem append {left right : Rendering} (first : Trails needs left) (second : Trails needs' right)
    (meets : ∀ rest, needs' rest → needs (right.shown Repair.closers.done ++ rest)) :
    Trails needs' (left ++ right) := by
  intro rest need
  rw [shown_append, shown_append, List.append_assoc, first _ (meets rest need), second rest need]
  cases Conditionals.trailed rest <;> simp [Except.map]

theorem followed {left right : Rendering} (first : Trails (fun _ => True) left)
    (second : Trails needs right) : Trails needs (left ++ right) :=
  first.append second fun _ _ => trivial

theorem cons {entry : Entry} {rest : Rendering} (one : Trails (fun _ => True) [entry])
    (more : Trails needs rest) : Trails needs (entry :: rest) :=
  one.followed more

/-- A token that is no conditional. -/
theorem single {entry : Entry} {t : Token} (before : entry.shown Repair.closers.done = [t])
    (done : entry.shown Repair.conditionals.done = [t])
    (other : Conditionals.trailing? t.tag = none) : Trails needs [entry] := by
  intro rest _
  have settled : Conditionals.settle t rest = .ok t := by simp only [Conditionals.settle, other]
  rw [shown_cons, shown_cons, before, done]
  simp only [shown, List.flatMap_nil, List.append_nil, List.singleton_append, Conditionals.trailed,
    settled]

theorem hidden {entry : Entry} (before : entry.shown Repair.closers.done = [])
    (done : entry.shown Repair.conditionals.done = []) : Trails needs [entry] := by
  have same : ∀ repairs, entry.shown repairs = [] → shown repairs [entry] = shown repairs [] := by
    intro repairs gone
    rw [shown_cons, gone]
    rfl
  intro rest need
  rw [same _ before, same _ done]
  exact nil rest need

theorem mark {tag : Tag} (other : Conditionals.trailing? tag = none) : Trails needs [.mark tag] :=
  single (t := .bare tag) rfl rfl other

theorem name (text : String) : Trails needs [.name text] :=
  single (t := .spelled .identifier text) rfl rfl rfl

theorem number (text : String) : Trails needs [.number text] :=
  single (t := .spelled .number text) rfl rfl rfl

theorem comma {left right : Rendering} (first : Trails (fun _ => True) left)
    (second : Trails needs right) : Trails needs (left ++ .mark .comma :: right) :=
  first.followed (.cons (.mark rfl) second)

/-- Something between an opener and a closer. -/
theorem enclosed {opener closer : Entry} {inside : Rendering}
    (starts : Trails (fun _ => True) [opener]) (more : Trails needs' inside)
    (ends : Trails needs [closer])
    (meets : ∀ rest, needs' (closer.shown Repair.closers.done ++ rest)) :
    Trails needs (enclosed opener inside closer) := by
  refine .cons starts (more.append ends ?_)
  intro rest _
  have one : shown Repair.closers.done [closer] = closer.shown Repair.closers.done := by
    rw [shown_cons]
    exact List.append_nil _
  rw [one]
  exact meets rest

theorem call {arguments : Rendering} (more : Trails (fun _ => True) arguments) :
    Trails needs (Rendering.enclosed (.mark .callStart) arguments .callEnd) :=
  enclosed (.mark rfl) more (single (t := .bare .callEnd) rfl rfl rfl) fun _ => trivial

theorem block {statements : Rendering} (more : Trails Cut statements) :
    Trails needs (block statements) :=
  enclosed (.mark rfl) more (.mark rfl) (by
    intro rest t first
    obtain rfl : Token.bare .outdent = t := by
      simpa [Entry.mark, Entry.shown] using first
    exact .inr rfl)

theorem mapping {members : Rendering} (more : Trails (fun _ => True) members) :
    Trails needs (Rendering.mapping members) :=
  enclosed (single (t := .spelled .indent "\x7b") rfl rfl rfl) more
    (single (t := .spelled .outdent "\x7d") rfl rfl rfl) fun _ => trivial

theorem classBody {members : Rendering} (more : Trails (fun _ => True) members) :
    Trails needs (Rendering.classBody members) :=
  .cons (.hidden rfl rfl) (more.mapping.followed (.hidden rfl rfl))

theorem separator (statement : Rendering) : Trails needs [separator statement] := by
  unfold Rendering.separator
  split
  · exact hidden rfl rfl
  · exact mark rfl

/-- The keyword behind a statement, with its condition. -/
theorem trailing (negated : Bool) (condition : String) :
    Trails Cut [.trailing negated, .name condition] := by
  intro rest cut
  have keywordTrails : ∀ t : Token,
      Conditionals.isTrailing [t] (.spelled .identifier condition :: rest) = .ok true := by
    intro t
    have level : (Forest.leaf (Token.spelled .identifier condition) .nil).Level :=
      ⟨⟨rfl, rfl⟩, trivial⟩
    exact Conditionals.isTrailing_of_cut level ⟨fun tag => (by cases tag), trivial⟩ cut
  have settled : Conditionals.settle (.bare (keyword negated))
      (.spelled .identifier condition :: rest) = .ok (.bare (trailingKeyword negated)) := by
    cases negated <;> simp only [Conditionals.settle, keywordTrails] <;> rfl
  have trails : Conditionals.trailed
      (.bare (keyword negated) :: .spelled .identifier condition :: rest) =
        (Conditionals.trailed (.spelled .identifier condition :: rest)).map
          (.bare (trailingKeyword negated) :: ·) := by
    rw [Conditionals.trailed, settled]
  have name : Conditionals.trailed (.spelled .identifier condition :: rest) =
      (Conditionals.trailed rest).map (.spelled .identifier condition :: ·) := by
    have one : Trails (fun _ => True) [.name condition] := .name condition
    exact one rest trivial
  show Conditionals.trailed (.bare (keyword negated) :: .spelled .identifier condition :: rest) = _
  rw [trails, name]
  cases Conditionals.trailed rest <;> rfl

/-- A statement with its conditional ends no block, so it needs the end of the statement. -/
theorem guarded {body : Rendering} (more : Trails (fun _ => True) body) (negated : Bool)
    (condition : String) :
    Trails
      (fun rest => endsBlock (body ++ [.trailing negated, .name condition]) = false → Cut rest)
      (body ++ [.trailing negated, .name condition]) := by
  have last : endsBlock (body ++ [.trailing negated, .name condition]) = false := by
    have split : body ++ [.trailing negated, .name condition] =
        (body ++ [.trailing negated]) ++ [.name condition] := by simp
    rw [split, endsBlock_concat rfl]
    rfl
  exact (more.followed (.trailing negated condition)).mono fun rest cut => cut last

/-- A statement that ends no block has the end of the statement behind it. -/
theorem sequence {first rest : Rendering}
    (one : Trails (fun stream => first.endsBlock = false → Cut stream) first)
    (more : Trails needs rest) : Trails needs (first ++ Rendering.separator first :: rest) := by
  refine one.append (.cons (.separator _) more) ?_
  intro stream _ notBlock t head
  have terminator : Rendering.separator first = Entry.mark .terminator := by
    simp [Rendering.separator, notBlock]
  rw [terminator] at head
  obtain rfl : Token.bare .terminator = t := by
    simpa [shown, Entry.mark, Entry.shown] using head
  exact .inl rfl

end Trails

end Rendering

open Rendering (Trails)

/-- A simple expression is a condition. -/
theorem Simple.unbroken (simple : Simple) (keyword : Token) :
    ∃ forest : Forest Token, forest.Level ∧
      forest.flatten = simple.rendering.shown Repair.closers.done ∧
      Conditionals.Unbroken keyword forest ∧
      (forest.flatten.getLastD keyword).tag.isSingleLiner = false := by
  cases simple with
  | name text =>
      exact ⟨.leaf (.spelled .identifier text) .nil, ⟨⟨rfl, rfl⟩, trivial⟩, rfl,
        ⟨fun tag => (by cases tag), trivial⟩, rfl⟩
  | number text =>
      exact ⟨.leaf (.spelled .number text) .nil, ⟨⟨rfl, rfl⟩, trivial⟩, rfl,
        ⟨fun tag => (by cases tag), trivial⟩, rfl⟩
  | call callee arguments =>
      have names : Nested Repair.closers.done
          (Rendering.listed (arguments.map fun text => [.name text])) := .names arguments
      obtain ⟨inside, nests, flat⟩ := names
      refine ⟨.leaf (.spelled .identifier callee)
        (.pair (.bare .callStart) inside (.bare .callEnd) .nil), ⟨⟨rfl, rfl⟩, ⟨rfl, rfl⟩,
        nests.level, trivial⟩, ?_, ⟨fun tag => (by cases tag), fun tag => (by cases tag), trivial⟩,
        ?_⟩
      · rw [rendering, Rendering.shown_cons, Rendering.shown_enclosed rfl rfl, Forest.flatten,
          Forest.flatten, flat]
        rfl
      · have flat' : (Forest.leaf (Token.spelled .identifier callee)
            (.pair (.bare .callStart) inside (.bare .callEnd) .nil)).flatten =
            [.spelled .identifier callee, .bare .callStart] ++ inside.flatten ++
              [.bare .callEnd] := by simp
        rw [flat', List.getLastD_concat]
        rfl

theorem Simple.trails (simple : Simple) : Trails (fun _ => True) simple.rendering :=
  simple.rendering_cases .name .number .nil .comma fun callee _ more => .cons (.name callee)
    more.call

/-- A conditional leads the block behind its condition. -/
theorem Simple.trails_branch {needs : Tokens → Prop} (condition : Simple) (negated : Bool)
    {statements rest : Rendering}
    (more : Trails needs (condition.rendering ++ (Rendering.block statements ++ rest))) :
    Trails needs (.mark (keyword negated) ::
      (condition.rendering ++ (Rendering.block statements ++ rest))) := by
  intro stream need
  obtain ⟨forest, level, flat, unbroken, notOneLine⟩ :=
    condition.unbroken (.bare (keyword negated))
  have leads : Conditionals.isTrailing [.bare (keyword negated)]
      ((condition.rendering ++ (Rendering.block statements ++ rest)).shown Repair.closers.done ++
        stream) = .ok false := by
    refine (Conditionals.isTrailing_eq_false_iff _ _).2 ⟨forest, .bare .indent,
      (statements.shown Repair.closers.done ++ [.bare .outdent]) ++
        (rest.shown Repair.closers.done ++ stream), level, ?_, unbroken, rfl, notOneLine, .inl ?_⟩
    · rw [Rendering.shown_append, Rendering.shown_append, Rendering.block,
        Rendering.shown_enclosed rfl rfl, flat]
      simp
    · intro generated
      cases generated
  have settled : Conditionals.settle (.bare (keyword negated))
      ((condition.rendering ++ (Rendering.block statements ++ rest)).shown Repair.closers.done ++
        stream) = .ok (.bare (keyword negated)) := by
    cases negated <;> simp only [Conditionals.settle, leads] <;> rfl
  have one : ∀ repairs, (Entry.mark (keyword negated)).shown repairs = [.bare (keyword negated)] :=
    fun _ => rfl
  rw [Rendering.shown_cons, Rendering.shown_cons, one, one, List.singleton_append, List.cons_append,
    Conditionals.trailed, settled]
  simp only [more stream need]
  cases Conditionals.trailed stream <;> rfl

theorem Argument.trails (argument : Argument) : Trails (fun _ => True) argument.rendering := by
  cases argument with
  | plain value => exact value.trails
  | group value => exact .enclosed (.mark rfl) value.trails (.mark rfl) fun _ => trivial

theorem OpenCall.trails (last : OpenCall) : Trails (fun _ => True) last.rendering :=
  last.rendering_cases .nil Argument.trails .comma id .comma
    fun callee _ more => .cons (.name callee) (.enclosed (.mark rfl) more
      (.single (t := .generated .callEnd (.bare .callStart)) rfl rfl rfl) fun _ => trivial)

/-- What the pass for conditionals needs of the stream after a phrase. -/
def Phrase.Kind.cuts : Kind → Rendering → Tokens → Prop
  | block => fun _ rest => Cut rest
  | statement => fun rendering rest => rendering.endsBlock = false → Cut rest
  | _ => fun _ _ => True

theorem Phrase.trails {kind : Kind} (phrase : Phrase kind) :
    Trails (kind.cuts phrase.rendering) phrase.rendering := by
  induction phrase with
  | name text => exact .name text
  | number text => exact .number text
  | group inside ih => exact .enclosed (.mark rfl) ih (.mark rfl) fun _ => trivial
  | call callee arguments ih => exact .cons (.name callee) ih.call
  | index base inside ih =>
      exact .cons (.name base) (.enclosed (.mark rfl) ih
        (.single (t := .bare .indexEnd) rfl rfl rfl) fun _ => trivial)
  | mapping members ih => exact ih.mapping
  | emptyMapping => exact .mapping (.single (t := .bare .colon) rfl rfl rfl)
  | function body ih => exact .cons (.mark rfl) ih.block
  | noArgument => exact .nil
  | argument first rest ihFirst ihRest =>
      exact Rendering.joined_cases ihFirst ihRest fun _ _ => ihFirst.comma ihRest
  | lastMember key value ih => exact .cons (.name key) (.cons (.mark rfl) ih)
  | member key value rest ihValue ihRest =>
      exact .cons (.name key) (.cons (.mark rfl) (ihValue.comma ihRest))
  | evaluate value ih => exact ih.mono fun _ _ => trivial
  | assign target value ih =>
      exact .cons (.name target) (.cons (.mark rfl) (ih.mono fun _ _ => trivial))
  | guarded body negated condition =>
      exact body.trails.guarded negated condition
  | branch negated condition body otherwise ihBody ihOtherwise =>
      exact condition.trails_branch negated
        (condition.trails.followed (ihBody.block.followed (ihOtherwise.mono fun _ _ => trivial)))
  | classOf className parent members ih =>
      refine .cons (.mark rfl) (.cons (.name className) ?_)
      cases parent with
      | none => exact ih.classBody
      | some parent => exact .cons (.mark rfl) (.cons (.name parent) ih.classBody)
  | noAlternative => exact .nil
  | alternative body ih => exact .cons (.mark rfl) ih.block
  | finish last =>
      cases last with
      | none => exact .nil
      | some last => exact last.trails.mono fun _ _ => trivial
  | sequence first rest ihFirst ihRest =>
      have last : ∀ stream, Cut stream → Kind.cuts .statement first.rendering stream :=
        fun _ cut _ => cut
      exact Rendering.joined_cases (ihFirst.mono last) ihRest fun _ _ => ihFirst.sequence ihRest

/-- The pass for conditionals retags those that trail. -/
theorem Phrase.trailed_rendering (program : Phrase .block) :
    Conditionals.trailed (program.rendering.shown Repair.closers.done) =
      .ok (program.rendering.shown Repair.conditionals.done) := by
  have cut : Cut [] := by
    intro t first
    cases first
  have trails := program.trails [] cut
  rw [List.append_nil] at trails
  rw [trails]
  simp [Conditionals.trailed, Except.map]

end TokenLayout
