import CssSieve.Sheet.Rules

/-!
# Nesting of rules

How deeply the rules of a sheet can nest, once the blocks that have not been read are read: the
depth of an unread block bounds the nesting of the rules inside it. Main statements: the rules read
from a list of values nest no deeper than the values (`nestingAll_listOfValues_le`), so the rules
of a block nest less deeply than the at-rule that they belong to (`nestingAll_lt_of_rules?`).
-/

namespace CssSieve

mutual

def AtBlock.nesting : AtBlock → Nat
  | .absent => 0
  | .declarations _ => 1
  | .raw vs => 1 + Value.depthAll vs
  | .rules rs => 1 + Rule.nestingAll rs

def AtRule.nesting : AtRule → Nat
  | ⟨_, _, block⟩ => block.nesting

def Rule.nesting : Rule → Nat
  | .style _ => 0
  | .at r => r.nesting

def Rule.nestingAll : List Rule → Nat
  | [] => 0
  | r :: rs => max r.nesting (Rule.nestingAll rs)

end

namespace AtBlock

/-- The declarations of a block, read now if they have not been read yet. -/
def declarations? : AtBlock → Option (List Declaration)
  | raw vs => some (Declaration.listOfValues vs)
  | declarations ds => some ds
  | absent | rules _ => none

/-- The rules of a block, read now if they have not been read yet. -/
def rules? : AtBlock → Option (List Rule)
  | raw vs => some (Rule.listOfValues vs)
  | rules rs => some rs
  | absent | declarations _ => none

end AtBlock

namespace RuleReader

theorem nestingAll_finish (r : RuleReader) : Rule.nestingAll r.finish.toList = 0 := by
  cases r <;> simp [finish, atRule, Rule.nestingAll, Rule.nesting, AtRule.nesting, AtBlock.nesting]

theorem nestingAll_stepInStyleRule (prelude : List Value) (v : Value) :
    Rule.nestingAll (stepInStyleRule prelude v).2.toList = 0 := by
  unfold stepInStyleRule
  split <;> simp [styleRule, Rule.nestingAll, Rule.nesting]

theorem nestingAll_stepInAtRule_le (name : String) (prelude : List Value) (v : Value) :
    Rule.nestingAll (stepInAtRule name prelude v).2.toList ≤ v.depth := by
  unfold stepInAtRule
  split <;> simp [Rule.nestingAll, Rule.nesting, atRule, AtRule.nesting, AtBlock.nesting,
    Value.depth]

theorem nestingAll_stepBetween (topLevel : Bool) (v : Value) :
    Rule.nestingAll (stepBetween topLevel v).2.toList = 0 := by
  unfold stepBetween
  split <;> (try split) <;> simp [Rule.nestingAll, nestingAll_stepInStyleRule]

theorem nestingAll_step_le (topLevel : Bool) (r : RuleReader) (v : Value) :
    Rule.nestingAll (r.step topLevel v).2.toList ≤ v.depth := by
  cases r with
  | between => simp [step, nestingAll_stepBetween]
  | inAtRule name prelude => exact nestingAll_stepInAtRule_le name prelude v
  | inStyleRule prelude => simp [step, nestingAll_stepInStyleRule]

theorem nestingAll_run_le (topLevel : Bool) (r : RuleReader) (vs : List Value) :
    Rule.nestingAll (r.run topLevel vs) ≤ Value.depthAll vs := by
  induction vs generalizing r with
  | nil => simp [run, nestingAll_finish, Value.depthAll]
  | cons v vs ih =>
      have hs := nestingAll_step_le topLevel r v
      have hr := ih (r.step topLevel v).1
      rw [run, Value.depthAll]
      cases h : (r.step topLevel v).2 with
      | none => simp only [Option.toList_none, List.nil_append]; omega
      | some rule =>
          simp only [h, Option.toList_some, Rule.nestingAll] at hs
          simp only [Option.toList_some, List.cons_append, List.nil_append, Rule.nestingAll]
          omega

end RuleReader

theorem Rule.nestingAll_listOfValues_le (vs : List Value) :
    nestingAll (listOfValues vs) ≤ Value.depthAll vs :=
  RuleReader.nestingAll_run_le false .between vs

theorem AtBlock.nestingAll_lt_of_rules? {block : AtBlock} {rules : List Rule}
    (h : block.rules? = some rules) : Rule.nestingAll rules < block.nesting := by
  cases block with
  | absent => simp [AtBlock.rules?] at h
  | raw vs =>
      have := Rule.nestingAll_listOfValues_le vs
      simp only [AtBlock.rules?, Option.some.injEq] at h
      subst h
      simp only [AtBlock.nesting]
      omega
  | declarations ds => simp [AtBlock.rules?] at h
  | rules rs =>
      simp only [AtBlock.rules?, Option.some.injEq] at h
      subst h
      simp only [AtBlock.nesting]
      omega

theorem AtRule.nesting_eq (r : AtRule) : r.nesting = r.block.nesting := by
  cases r; rfl

end CssSieve
