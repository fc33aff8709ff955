/-
# TokenLayout.Proofs.Convergence -- what a second run can touch

A second run meets a resolved stream, in which only conditionals may still be
retagged (`Resolver.run_of_resolved`).  Whether a conditional leads its body is read
off the tokens after it without regard to which conditionals among them lead
(`Conditionals.leadsBody_of_sketch`).  So the ones that the second run leaves leading
lead their bodies in its outcome too, and a third run finds nothing to retag: main
statement `Resolver.run_converges`.
-/
import Mathlib.Data.List.Forall2
import TokenLayout.Proofs.Rerun

namespace TokenLayout

set_option autoImplicit false

open List (Forall₂)

/-! ## Sketches of conditions -/

theorem level_sketch (forest : Forest Token) :
    (forest.map Token.sketch).Level ↔ forest.Level := by
  rw [Forest.Level, Forest.nests_map]
  simp only [Token.Alone, Token.Brackets, Token.sketch, Tag.leading_classes]
  rfl

theorem Token.isSingleLiner_sketch (t : Token) :
    t.sketch.tag.isSingleLiner = t.tag.isSingleLiner := by
  cases t with
  | mk tag => cases tag <;> rfl

theorem sketch_getLastD (tokens : Tokens) (t : Token) :
    (tokens.getLastD t).sketch = (tokens.map Token.sketch).getLastD t.sketch := by
  rw [List.getLastD_eq_getLast?, List.getLastD_eq_getLast?, List.getLast?_map]
  cases tokens.getLast? <;> rfl

namespace Conditionals

theorem unbroken_sketch (previous : Token) (condition : Forest Token) :
    Unbroken previous.sketch (condition.map Token.sketch) ↔ Unbroken previous condition := by
  have terminator := Token.sketch_tag_iff .terminator (by decide)
  have indent := Token.sketch_tag_iff .indent (by decide)
  induction condition generalizing previous with
  | nil => rfl
  | leaf t next ih => simp only [Forest.map, Unbroken, ne_eq, terminator, ih]
  | pair o inside c next _ ih =>
      simp only [Forest.map, Unbroken, indent, Token.isSingleLiner_sketch, ih]

/-- Whether a conditional leads a block does not depend on which other conditionals do. -/
theorem leadsBody_of_sketch {keyword keyword' : Token} {after after' : Tokens}
    (same : keyword'.sketch = keyword.sketch)
    (sames : after'.map Token.sketch = after.map Token.sketch) (leads : LeadsBody keyword after) :
    LeadsBody keyword' after' := by
  obtain ⟨condition, body, rest, level, rfl, unbroken, indent, notOneLine, source⟩ := leads
  -- the second stream is cut where the first one is, and the parts have the same sketches
  rw [List.map_append, List.map_cons] at sames
  obtain ⟨front, back, rfl, sameFront, sameBack⟩ := List.map_eq_append_iff.1 sames
  obtain ⟨body', rest', rfl, sameBody, -⟩ := List.map_eq_cons_iff.1 sameBack
  have last := sketch_getLastD front keyword'
  rw [sameFront, same, ← sketch_getLastD] at last
  rw [← Forest.flatten_map] at sameFront
  obtain ⟨condition', rfl, mapped⟩ := Forest.exists_map_eq Token.sketch _ _ sameFront
  have tag := Token.sketch_tag_iff .indent (by decide)
  refine ⟨condition', body', rest', ?_, rfl, ?_, ?_, ?_, ?_⟩
  · rw [← level_sketch, mapped, level_sketch]
    exact level
  · rw [← unbroken_sketch, same, mapped, unbroken_sketch]
    exact unbroken
  · rw [← tag, sameBody, tag]
    exact indent
  · rw [← Token.isSingleLiner_sketch, last, Token.isSingleLiner_sketch]
    exact notOneLine
  · show body'.sketch.provenance ≠ .generated ∨ body'.sketch.fromThen = true
    rw [sameBody]
    exact source

/-- The second of two tokens is the first, or the first is a conditional and trails in the
second. -/
def Trails (t u : Token) : Prop :=
  u = t ∨ (t.tag = .ifWord ∧ u = t.retag .postIf) ∨ (t.tag = .unlessWord ∧ u = t.retag .postUnless)

theorem trails_of_settle {t u : Token} {after : Tokens} (settled : settle t after = .ok u) :
    Trails t u := by
  rcases settle_cases settled with ⟨same, -⟩ | ⟨tag, keyword, -, rfl⟩
  · exact .inl same
  · rcases trailing?_cases keyword with ⟨word, rfl⟩ | ⟨word, rfl⟩
    · exact .inr (.inl ⟨word, rfl⟩)
    · exact .inr (.inr ⟨word, rfl⟩)

theorem trails_of_trailed {tokens again : Tokens} (done : trailed tokens = .ok again) :
    Forall₂ Trails tokens again :=
  forall₂_trailed trails_of_settle done

/-- A conditional still leading after the pass leads its block. -/
theorem leadsBody_of_settle {t u : Token} {after : Tokens} (settled : settle t after = .ok u)
    (word : u.tag = .ifWord ∨ u.tag = .unlessWord) : LeadsBody t after := by
  rcases settle_cases settled with ⟨rfl, leads⟩ | ⟨tag, keyword, -, rfl⟩
  · exact (isTrailing_eq_false_iff _ _).1 (leads word)
  · exfalso
    have retagged : tag = .ifWord ∨ tag = .unlessWord := word
    rcases trailing?_cases keyword with ⟨-, rfl⟩ | ⟨-, rfl⟩ <;> rcases retagged with h | h <;>
      cases h

/-- Every conditional still leading in the outcome leads its block there. -/
theorem leadsBody_trailed {tokens again : Tokens} (done : trailed tokens = .ok again)
    {front after : Tokens} {keyword : Token} (split : again = front ++ keyword :: after)
    (word : keyword.tag = .ifWord ∨ keyword.tag = .unlessWord) : LeadsBody keyword after := by
  induction tokens generalizing again front with
  | nil =>
      obtain rfl := Except.ok.inj done
      cases front <;> cases split
  | cons t rest ih =>
      obtain ⟨u, out, settled, later, rfl⟩ := trailed_cons_cases done
      cases front with
      | nil =>
          -- it led its block in the tokens before the pass, and the pass keeps their sketch
          obtain ⟨rfl, rfl⟩ := List.cons.inj split
          exact leadsBody_of_sketch (sketch_settle settled).1 (sketch_trailed later).1
            (leadsBody_of_settle settled word)
      | cons first front => exact ih later (List.cons.inj split).2

/-- **The pass is done after one run.** -/
theorem trailed_trailed {tokens again : Tokens} (done : trailed tokens = .ok again) {third : Tokens}
    (thrice : trailed again = .ok third) : third = again :=
  (trailed_eq_self_iff thrice).2 fun _ _ _ split word => leadsBody_trailed done split word

end Conditionals

namespace Resolver

/-- **Runs converge.**  The outcome of a run resolves again.  The second run keeps every token
in its place and changes nothing but the tags of conditionals that turn out to trail, and a
third run changes nothing at all. -/
theorem run_converges (tokens out : Tokens) (done : full.run tokens = .ok out) :
    ∃ again, full.run out = .ok again ∧ again.length = out.length ∧
      Forall₂ Conditionals.Trails out again ∧ full.run again = .ok again := by
  obtain ⟨again, trails, second⟩ := run_of_resolved (resolved_of_run done)
  obtain ⟨third, thrice, run⟩ := run_of_resolved (resolved_of_run second)
  have few := Conditionals.trails_of_trailed trails
  refine ⟨again, second, few.length_eq.symm, few, ?_⟩
  rw [run, Conditionals.trailed_trailed trails thrice]

/-- The second run retags the conditional in front of the mapping, the third does not. -/
theorem run_converges_conditionalMapping :
    full.run (conditionalMapping .ifWord .indent .outdent) =
        .ok (conditionalMapping .ifWord .mappingStart .mappingEnd) ∧
      ∃ again, full.run (conditionalMapping .ifWord .mappingStart .mappingEnd) = .ok again ∧
        again.length = (conditionalMapping .ifWord .mappingStart .mappingEnd).length ∧
        Forall₂ Conditionals.Trails (conditionalMapping .ifWord .mappingStart .mappingEnd) again ∧
        full.run again = .ok again :=
  ⟨rfl, run_converges (conditionalMapping .ifWord .indent .outdent) _ rfl⟩

end Resolver

end TokenLayout
