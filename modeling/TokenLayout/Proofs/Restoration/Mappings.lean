/-
# TokenLayout.Proofs.Restoration.Mappings -- braces told apart

A pair of braces is a mapping if there is a colon right within it, so the induction
on the phrase tells whether one shows (`Phrase.Kind.hasColon`); and a mapping
becomes a class body if a class was announced shortly before, so it is about what
stands behind tokens that announce none.  Only the body of a class stands behind
tokens that do (`Rendering.Anywhere`).
-/
import TokenLayout.Proofs.Mappings
import TokenLayout.Proofs.Renderings

namespace TokenLayout

set_option autoImplicit false

namespace Braces

/-- A token that opens no class leaves the tokens before it as they are to a brace. -/
theorem opensClassBody_cons {t : Token} (noWord : t.tag ≠ .classWord ∧ t.tag ≠ .extendsWord)
    {before : Tokens} (clear : opensClassBody before = false) :
    opensClassBody (t :: before) = false := by
  rcases before with - | ⟨u, before⟩
  · simp [opensClassBody, noWord]
  · simp only [opensClassBody, List.take_succ_cons, List.any_cons, Bool.or_eq_false_iff] at clear
    simp [opensClassBody, noWord, clear.1]

/-- Braces around anything but a lone colon do not spell the empty mapping. -/
theorem spellsEmpty_eq_false {o c : Token} {inside : Forest Token}
    (other : ∀ t, inside = .leaf t .nil → t.tag ≠ .colon) : spellsEmpty o inside c = false := by
  cases empty : spellsEmpty o inside c with
  | false => rfl
  | true =>
      obtain ⟨t, alone, tag, -⟩ := exists_of_spellsEmpty empty
      exact absurd tag (other t alone)

end Braces

namespace Rendering

/-! ## Braces in the stream -/

section

variable {repairs : List Repair}

theorem shown_mapping_unmarked (unmarked : .mappings ∉ repairs) (members : Rendering) :
    (Rendering.mapping members).shown repairs =
      .spelled .indent "\x7b" :: (members.shown repairs ++ [.spelled .outdent "\x7d"]) := by
  have opens : Entry.openBrace.shown repairs = [.spelled .indent "\x7b"] := if_neg unmarked
  have closes : Entry.closeBrace.shown repairs = [.spelled .outdent "\x7d"] := if_neg unmarked
  exact shown_enclosed opens closes members

theorem shown_mapping_marked (marked : .mappings ∈ repairs) (members : Rendering) :
    (Rendering.mapping members).shown repairs =
      .bare .mappingStart :: (members.shown repairs ++ [.bare .mappingEnd]) := by
  have opens : Entry.openBrace.shown repairs = [.bare .mappingStart] := if_pos marked
  have closes : Entry.closeBrace.shown repairs = [.bare .mappingEnd] := if_pos marked
  exact shown_enclosed opens closes members

/-- The block around a class body is not there yet. -/
theorem shown_classBody_unmarked (unmarked : .mappings ∉ repairs) (members : Rendering) :
    (Rendering.classBody members).shown repairs = (Rendering.mapping members).shown repairs := by
  have hidden : ∀ t, (Entry.resolvedOnly t .mappings).shown repairs = [] := fun t => if_neg unmarked
  simp [Rendering.classBody, Rendering.enclosed, shown, Entry.bodyStart, Entry.bodyEnd, hidden]

theorem shown_classBody_marked (marked : .mappings ∈ repairs) (members : Rendering) :
    (Rendering.classBody members).shown repairs =
      .generated .indent (.bare .mappingStart) ::
        ((Rendering.mapping members).shown repairs ++
          [.generated .outdent (.bare .mappingStart)]) := by
  have starts : Entry.bodyStart.shown repairs = [.generated .indent (.bare .mappingStart)] :=
    if_pos marked
  have ends : Entry.bodyEnd.shown repairs = [.generated .outdent (.bare .mappingStart)] :=
    if_pos marked
  exact shown_enclosed starts ends _

end

/-! ## Marking -/

/-- The mapping pass treats the rendering as it should, behind anything but the start of a class.
What is told of its surface is whether it has a colon. -/
def Dresses (colon : Bool) (rendering : Rendering) : Prop :=
  ∃ forest : Forest Token, forest.Braced ∧
    forest.flatten = rendering.shown Repair.conditionals.done ∧ Braces.hasColon forest = colon ∧
    ∀ before, Braces.opensClassBody before = false →
      (Braces.mark before forest).flatten = rendering.shown Repair.mappings.done ∧
        Braces.opensClassBody ((rendering.shown Repair.mappings.done).reverse ++ before) = false

namespace Dresses

variable {colon colon' : Bool}

theorem nil : Dresses false [] :=
  ⟨.nil, trivial, rfl, rfl, fun _ clear => ⟨rfl, clear⟩⟩

theorem append {left right : Rendering} (first : Dresses colon left)
    (second : Dresses colon' right) : Dresses (colon || colon') (left ++ right) := by
  obtain ⟨forest, braced, flat, has, marks⟩ := first
  obtain ⟨forest', braced', flat', has', marks'⟩ := second
  refine ⟨forest.append forest', Forest.nests_append braced braced', ?_, ?_, ?_⟩
  · rw [Forest.flatten_append, flat, flat', shown_append]
  · rw [Braces.hasColon_append, has, has']
  · intro before clear
    obtain ⟨marked, clear⟩ := marks before clear
    obtain ⟨marked', clear'⟩ := marks' _ clear
    rw [Braces.mark_append, Forest.flatten_append, marked, marked', shown_append,
      List.reverse_append, List.append_assoc]
    exact ⟨rfl, clear'⟩

theorem single {entry : Entry} {t : Token} (before : entry.shown Repair.conditionals.done = [t])
    (done : entry.shown Repair.mappings.done = [t]) (noBrace : t.NoBrace)
    (noWord : t.tag ≠ .classWord ∧ t.tag ≠ .extendsWord) (has : (t.tag == .colon) = colon) :
    Dresses colon [entry] := by
  refine ⟨.leaf t .nil, ⟨noBrace, trivial⟩, ?_, ?_, ?_⟩
  · rw [shown_cons, before]
    rfl
  · simp [has]
  · intro front clear
    rw [shown_cons, done]
    exact ⟨rfl, Braces.opensClassBody_cons noWord clear⟩

theorem hidden {entry : Entry} (before : entry.shown Repair.conditionals.done = [])
    (done : entry.shown Repair.mappings.done = []) : Dresses false [entry] := by
  refine ⟨.nil, trivial, ?_, rfl, ?_⟩
  · rw [shown_cons, before]
    rfl
  · intro front clear
    rw [shown_cons, done]
    exact ⟨rfl, clear⟩

theorem cons {entry : Entry} {rest : Rendering} (one : Dresses false [entry])
    (more : Dresses colon rest) : Dresses colon (entry :: rest) := by
  have whole := one.append more
  rwa [Bool.false_or] at whole

/-- A token that means nothing to the mapping pass. -/
theorem plain {entry : Entry} {t : Token} (before : entry.shown Repair.conditionals.done = [t])
    (done : entry.shown Repair.mappings.done = [t])
    (other : t.tag ∉ [.indent, .outdent, .mappingStart, .mappingEnd, .classWord, .extendsWord,
      .colon]) : Dresses false [entry] := by
  simp only [List.mem_cons, List.not_mem_nil, or_false, not_or] at other
  refine single before done ?_ ?_ ?_ <;>
    simp [Token.NoBrace, Tag.isOpenBrace, Tag.isCloseBrace, other]

theorem mark {tag : Tag} (other : tag ∉ [.indent, .outdent, .mappingStart, .mappingEnd, .classWord,
    .extendsWord, .colon]) : Dresses false [.mark tag] :=
  plain (t := .bare tag) rfl rfl other

theorem name (text : String) : Dresses false [.name text] :=
  plain (t := .spelled .identifier text) rfl rfl (by show Tag.identifier ∉ _; decide)

theorem number (text : String) : Dresses false [.number text] :=
  plain (t := .spelled .number text) rfl rfl (by show Tag.number ∉ _; decide)

theorem comma {left right : Rendering} (first : Dresses false left)
    (second : Dresses colon right) : Dresses colon (left ++ .mark .comma :: right) := by
  have comma : Dresses false [.mark .comma] := mark (by decide)
  have whole := first.append (comma.cons second)
  rwa [Bool.false_or] at whole

theorem followed {left right : Rendering} (first : Dresses false left)
    (second : Dresses colon right) : Dresses colon (left ++ right) := by
  have whole := first.append second
  rwa [Bool.false_or] at whole

theorem separator (statement : Rendering) : Dresses false [separator statement] := by
  unfold Rendering.separator
  split
  · exact hidden rfl rfl
  · exact mark (by decide)

theorem enclosed {opener closer : Entry} {inside : Rendering} (starts : Dresses false [opener])
    (more : Dresses false inside) (ends : Dresses false [closer]) :
    Dresses false (enclosed opener inside closer) :=
  .cons starts (more.append ends)

theorem call {arguments : Rendering} (more : Dresses false arguments) :
    Dresses false (Rendering.enclosed (.mark .callStart) arguments .callEnd) :=
  enclosed (.mark (by decide)) more (plain (t := .bare .callEnd) rfl rfl (by decide))

/-- A block stays one. -/
theorem block {statements : Rendering} (more : Dresses false statements) :
    Dresses false (block statements) := by
  obtain ⟨forest, braced, flat, has, marks⟩ := more
  have notEmpty : Braces.spellsEmpty (.bare .indent) forest (.bare .outdent) = false := by
    refine Braces.spellsEmpty_eq_false fun t alone tag => ?_
    simp [alone, tag] at has
  refine ⟨.pair (.bare .indent) forest (.bare .outdent) .nil, ⟨⟨rfl, rfl⟩, braced, trivial⟩, ?_,
    rfl, ?_⟩
  · rw [Rendering.block, shown_enclosed rfl rfl, Forest.flatten, flat]
    rfl
  · intro before clear
    have inner : Braces.opensClassBody (Token.bare .indent :: before) = false :=
      Braces.opensClassBody_cons ⟨by decide, by decide⟩ clear
    obtain ⟨marked, clear'⟩ := marks _ inner
    rw [Rendering.block, shown_enclosed rfl rfl]
    refine ⟨?_, ?_⟩
    · simp only [Braces.mark, Braces.dress, notEmpty, has, Bool.false_eq_true, if_false,
        Forest.append, Forest.flatten, marked]
    · have closed := Braces.opensClassBody_cons (t := .bare .outdent) ⟨by decide, by decide⟩ clear'
      simpa using closed

/-- Behind a mapping no class is announced. -/
theorem clear_mapping {key : String} {rest : Rendering} (more : Dresses true (.name key :: rest))
    (before : Tokens) :
    Braces.opensClassBody (((Rendering.mapping (.name key :: rest)).shown
      Repair.mappings.done).reverse ++ before) = false := by
  obtain ⟨forest, -, -, -, marks⟩ := more
  have behind := (marks [] rfl).2
  -- of the tokens within the braces only the last one is in sight behind them
  obtain ⟨u, earlier, last⟩ : ∃ u earlier,
      (shown Repair.mappings.done (.name key :: rest)).reverse = u :: earlier := by
    cases within : (shown Repair.mappings.done (.name key :: rest)).reverse with
    | nil => simp [shown, Entry.name, Entry.shown] at within
    | cons u earlier => exact ⟨u, earlier, rfl⟩
  rw [last] at behind
  have closed : Braces.opensClassBody (.bare .mappingEnd :: u :: (earlier ++ [])) = false :=
    Braces.opensClassBody_cons ⟨by decide, by decide⟩ behind
  have shape : ((Rendering.mapping (.name key :: rest)).shown
      Repair.mappings.done).reverse ++ before =
        .bare .mappingEnd :: u :: (earlier ++ .bare .mappingStart :: before) := by
    rw [shown_mapping_marked (by decide)]
    simp [last]
  rw [shape]
  exact closed

/-- Braces around members become those of a mapping, and in a class body a block around it. -/
theorem mark_mapping {key : String} {rest : Rendering}
    (more : Dresses true (.name key :: rest)) :
    ∃ forest : Forest Token, forest.Braced ∧ Braces.hasColon forest = false ∧
      forest.flatten =
        (Rendering.mapping (.name key :: rest)).shown Repair.conditionals.done ∧
      ∀ before, Braces.opensClassBody (.spelled .indent "\x7b" :: before) = false →
        (Braces.mark before forest).flatten =
          (if Braces.opensClassBody before then Rendering.classBody (.name key :: rest)
            else Rendering.mapping (.name key :: rest)).shown Repair.mappings.done := by
  obtain ⟨forest, braced, flat, has, marks⟩ := more
  have notEmpty : Braces.spellsEmpty (.spelled .indent "\x7b") forest (.spelled .outdent "\x7d") =
      false := by
    refine Braces.spellsEmpty_eq_false fun t alone tag => ?_
    rw [alone] at flat
    obtain rfl : t = .spelled .identifier key := (List.cons.inj flat).1
    cases tag
  refine ⟨.pair (.spelled .indent "\x7b") forest (.spelled .outdent "\x7d") .nil,
    ⟨⟨rfl, rfl⟩, braced, trivial⟩, rfl, ?_, ?_⟩
  · rw [shown_mapping_unmarked (by decide), Forest.flatten, flat]
    rfl
  · intro before clear
    have marked := (marks _ clear).1
    have wraps : Braces.wraps (.spelled .indent "\x7b") before = Braces.opensClassBody before :=
      Bool.true_and _
    have opener : (Token.spelled .indent "\x7b").retag .mappingStart = .bare .mappingStart := rfl
    have closer : (Token.spelled .outdent "\x7d").retag .mappingEnd = .bare .mappingEnd := rfl
    by_cases announced : Braces.opensClassBody before = true
    · rw [if_pos announced, shown_classBody_marked (by decide), shown_mapping_marked (by decide),
        ← marked]
      simp [Braces.mark, Braces.dress, notEmpty, has, wraps, opener, closer, announced]
    · rw [if_neg announced, shown_mapping_marked (by decide), ← marked]
      simp [Braces.mark, Braces.dress, notEmpty, has, wraps, opener, closer, announced]

theorem mapping {key : String} {rest : Rendering} (more : Dresses true (.name key :: rest)) :
    Dresses false (Rendering.mapping (.name key :: rest)) := by
  obtain ⟨forest, braced, has, flat, marks⟩ := mark_mapping more
  refine ⟨forest, braced, flat, has, ?_⟩
  intro before clear
  have inner : Braces.opensClassBody (.spelled .indent "\x7b" :: before) = false :=
    Braces.opensClassBody_cons ⟨by decide, by decide⟩ clear
  have marked := marks before inner
  rw [clear] at marked
  exact ⟨marked, clear_mapping more before⟩

theorem emptyMapping : Dresses false (Rendering.mapping [.emptyColon]) := by
  refine ⟨.pair (.spelled .indent "\x7b") (.leaf (.bare .colon) .nil) (.spelled .outdent "\x7d")
    .nil, ⟨⟨rfl, rfl⟩, ⟨⟨rfl, rfl⟩, trivial⟩, trivial⟩, rfl, rfl, ?_⟩
  intro before _
  have spells : Braces.spellsEmpty (.spelled .indent "\x7b") (.leaf (.bare .colon) .nil)
      (.spelled .outdent "\x7d") = true := rfl
  refine ⟨?_, rfl⟩
  simp only [Braces.mark, Braces.dress, spells, if_true]
  rfl

end Dresses

/-- The mapping pass treats the rendering as it should behind anything at all. -/
def Anywhere (rendering : Rendering) : Prop :=
  ∃ forest : Forest Token, forest.Braced ∧ Braces.hasColon forest = false ∧
    forest.flatten = rendering.shown Repair.conditionals.done ∧
    ∀ before, (Braces.mark before forest).flatten = rendering.shown Repair.mappings.done

theorem Anywhere.cons {entry : Entry} {t : Token} {rest : Rendering}
    (before : entry.shown Repair.conditionals.done = [t])
    (done : entry.shown Repair.mappings.done = [t]) (noBrace : t.NoBrace) (noColon : t.tag ≠ .colon)
    (more : Anywhere rest) : Anywhere (entry :: rest) := by
  obtain ⟨forest, braced, has, flat, marks⟩ := more
  refine ⟨.leaf t forest, ⟨noBrace, braced⟩, ?_, ?_, ?_⟩
  · simpa [noColon] using has
  · rw [shown_cons, before, Forest.flatten, flat]
    rfl
  · intro front
    rw [shown_cons, done, Braces.mark, Forest.flatten, marks]
    rfl

/-- The body of a class behind the word that announces it. -/
theorem Anywhere.body {word : Tag} (announces : word = .classWord ∨ word = .extendsWord)
    (text : String) {key : String} {rest : Rendering} (more : Dresses true (.name key :: rest)) :
    Anywhere (.mark word :: .name text :: Rendering.classBody (.name key :: rest)) := by
  obtain ⟨forest, braced, has, flat, marks⟩ := Dresses.mark_mapping more
  have noBrace : (Token.bare word).NoBrace := by
    rcases announces with rfl | rfl <;> exact ⟨rfl, rfl⟩
  have noColon : ((Token.bare word).tag == .colon) = false := by
    rcases announces with rfl | rfl <;> rfl
  refine ⟨.leaf (.bare word) (.leaf (.spelled .identifier text) forest),
    ⟨noBrace, ⟨rfl, rfl⟩, braced⟩, ?_, ?_, ?_⟩
  · have name : ((Token.spelled .identifier text).tag == .colon) = false := rfl
    simp only [Braces.hasColon, Forest.surface, List.any_cons, noColon, name, Bool.false_or]
    exact has
  · rw [Forest.flatten, Forest.flatten, flat, shown_cons, shown_cons,
      shown_classBody_unmarked (by decide)]
    rfl
  · intro before
    have behind : Braces.opensClassBody
        (.spelled .identifier text :: .bare word :: before) = true := by
      rcases announces with rfl | rfl <;> simp [Braces.opensClassBody]
    have clear : Braces.opensClassBody (.spelled .indent "\x7b" ::
        .spelled .identifier text :: .bare word :: before) = false := rfl
    rw [Braces.mark, Braces.mark, Forest.flatten, Forest.flatten, marks _ clear, if_pos behind]
    rfl

/-- Behind the body of a class no word announces one. -/
theorem clear_body (front members : Rendering) (before : Tokens) :
    Braces.opensClassBody (((front ++ Rendering.classBody members).shown
      Repair.mappings.done).reverse ++ before) = false := by
  rw [shown_append, shown_classBody_marked (by decide), shown_mapping_marked (by decide)]
  simp [Braces.opensClassBody]

theorem Anywhere.dresses {rendering : Rendering} (anywhere : Anywhere rendering)
    (clear : ∀ before,
      Braces.opensClassBody ((rendering.shown Repair.mappings.done).reverse ++ before) = false) :
    Dresses false rendering := by
  obtain ⟨forest, braced, has, flat, marks⟩ := anywhere
  exact ⟨forest, braced, flat, has, fun before _ => ⟨marks before, clear before⟩⟩

theorem Dresses.classOf (className : String) (parent : Option String) {key : String}
    {rest : Rendering} (more : Dresses true (.name key :: rest)) :
    Dresses false (.mark .classWord :: .name className ::
      ((match parent with
        | some parent => [.mark .extendsWord, .name parent]
        | none => []) ++ Rendering.classBody (.name key :: rest))) := by
  cases parent with
  | none =>
      have body := Anywhere.body (.inl rfl) className more
      exact body.dresses (clear_body [.mark .classWord, .name className] _)
  | some parent =>
      have body := Anywhere.body (.inr rfl) parent more
      refine Anywhere.dresses ?_ (clear_body
        [.mark .classWord, .name className, .mark .extendsWord, .name parent] _)
      refine .cons (t := .bare .classWord) rfl rfl ⟨rfl, rfl⟩ (fun tag => by cases tag) ?_
      exact .cons (t := .spelled .identifier className) rfl rfl ⟨rfl, rfl⟩
        (fun tag => by cases tag) body

end Rendering

open Rendering (Dresses Anywhere)

theorem Simple.dresses (simple : Simple) : Dresses false simple.rendering :=
  simple.rendering_cases .name .number .nil .comma fun callee _ more => .cons (.name callee)
    more.call

theorem Argument.dresses (argument : Argument) : Dresses false argument.rendering := by
  cases argument with
  | plain value => exact value.dresses
  | group value => exact .enclosed (.mark (by decide)) value.dresses (.mark (by decide))

theorem OpenCall.dresses (last : OpenCall) : Dresses false last.rendering :=
  last.rendering_cases .nil Argument.dresses .comma id .comma
    fun callee _ more => .cons (.name callee) (.enclosed (.mark (by decide)) more
      (.plain (t := .generated .callEnd (.bare .callStart)) rfl rfl (by decide)))

/-- Only the members of a mapping show a colon. -/
def Phrase.Kind.hasColon : Kind → Bool
  | members => true
  | _ => false

theorem Phrase.dresses {kind : Kind} (phrase : Phrase kind) :
    Dresses kind.hasColon phrase.rendering := by
  have colon : Dresses true [.mark .colon] :=
    .single (t := .bare .colon) rfl rfl ⟨rfl, rfl⟩ ⟨by decide, by decide⟩ rfl
  induction phrase with
  | name text => exact .name text
  | number text => exact .number text
  | group inside ih => exact .enclosed (.mark (by decide)) ih (.mark (by decide))
  | call callee arguments ih => exact .cons (.name callee) ih.call
  | index base inside ih =>
      exact .cons (.name base) (.enclosed (.mark (by decide)) ih
        (.plain (t := .bare .indexEnd) rfl rfl (by decide)))
  | mapping members ih =>
      cases members with
      | lastMember key value => exact ih.mapping
      | member key value rest => exact ih.mapping
  | emptyMapping => exact .emptyMapping
  | function body ih => exact .cons (.mark (by decide)) ih.block
  | noArgument => exact .nil
  | argument first rest ihFirst ihRest =>
      exact Rendering.joined_cases ihFirst ihRest fun _ _ => ihFirst.comma ihRest
  | lastMember key value ih => exact .cons (.name key) (colon.append ih)
  | member key value rest ihValue ihRest =>
      exact .cons (.name key) (colon.append (ihValue.comma ihRest))
  | evaluate value ih => exact ih
  | assign target value ih => exact .cons (.name target) (.cons (.mark (by decide)) ih)
  | guarded body negated condition =>
      have keyword : Dresses false [.trailing negated] := by
        cases negated
        · exact .plain (t := .bare .postIf) rfl rfl (by decide)
        · exact .plain (t := .bare .postUnless) rfl rfl (by decide)
      exact body.dresses.followed (.cons keyword (.name condition))
  | branch negated condition body otherwise ihBody ihOtherwise =>
      refine .cons (.mark (by cases negated <;> decide)) ?_
      exact condition.dresses.followed (ihBody.block.followed ihOtherwise)
  | classOf className parent members ih =>
      cases members with
      | lastMember key value => exact ih.classOf className parent
      | member key value rest => exact ih.classOf className parent
  | noAlternative => exact .nil
  | alternative body ih => exact .cons (.mark (by decide)) ih.block
  | finish last =>
      cases last with
      | none => exact .nil
      | some last => exact last.dresses
  | sequence first rest ihFirst ihRest =>
      exact Rendering.joined_cases ihFirst ihRest fun _ _ =>
        ihFirst.followed (.cons (.separator _) ihRest)

/-- The mapping pass tells mappings from blocks. -/
theorem Phrase.markMappings_rendering (program : Phrase .block) :
    Braces.markMappings (program.rendering.shown Repair.conditionals.done) =
      .ok (program.rendering.shown Repair.mappings.done) := by
  obtain ⟨forest, braced, flat, noColon, marks⟩ := program.dresses
  have marked := (marks [] rfl).1
  rw [← flat, ← marked]
  exact Braces.markMappings_eq_mark braced.loose noColon

end TokenLayout
