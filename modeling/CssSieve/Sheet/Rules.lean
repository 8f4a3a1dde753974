import CssSieve.Sheet.Declarations
import CssSieve.Value.Assembly

/-!
# Rule lists

Component values are read as rules by an automaton that looks at each value once. A block in braces
ends the rule that it belongs to, wherever the automaton stands, so what comes after is read
independently of what went before. An at-rule may also end at a semicolon or with the list; a style
rule without a block is dropped.
-/

namespace CssSieve

/-- Where a reader of rules stands. Preludes are kept last value first. -/
inductive RuleReader where
  /-- Before a rule. -/
  | between
  /-- In the prelude of an at-rule. -/
  | inAtRule (name : String) (prelude : List Value)
  /-- In the prelude of a style rule. -/
  | inStyleRule (prelude : List Value)

namespace RuleReader

/-- The at-rule with a prelude that was collected last value first. -/
def atRule (name : String) (prelude : List Value) (block : AtBlock) : Rule :=
  .at ⟨name, Value.trim prelude.reverse, block⟩

/-- The style rule with a prelude that was collected last value first. -/
def styleRule (prelude contents : List Value) : Rule :=
  .style ⟨Value.trim prelude.reverse, Declaration.listOfValues contents⟩

/-- Reads one value in the prelude of a style rule. -/
def stepInStyleRule (prelude : List Value) (v : Value) : RuleReader × Option Rule :=
  match v with
  | .block '\x7b' contents => (between, some (styleRule prelude contents))
  | v => (inStyleRule (v :: prelude), none)

/-- Reads one value in the prelude of an at-rule. -/
def stepInAtRule (name : String) (prelude : List Value) (v : Value) : RuleReader × Option Rule :=
  match v with
  | .token .semicolon => (between, some (atRule name prelude .absent))
  | .block '\x7b' contents => (between, some (atRule name prelude (.raw contents)))
  | v => (inAtRule name (v :: prelude), none)

/-- Reads one value between rules. White space is passed over, and so at the top level of a sheet
are the markers that used to hide it from old browsers. -/
def stepBetween (topLevel : Bool) (v : Value) : RuleReader × Option Rule :=
  match v with
  | .token .whitespace => (between, none)
  | .token (.atKeyword name) => (inAtRule name [], none)
  | .token .cdo => if topLevel then (between, none) else stepInStyleRule [] v
  | .token .cdc => if topLevel then (between, none) else stepInStyleRule [] v
  | v => stepInStyleRule [] v

/-- Reads one value. -/
def step (topLevel : Bool) : RuleReader → Value → RuleReader × Option Rule
  | between => stepBetween topLevel
  | inAtRule name prelude => stepInAtRule name prelude
  | inStyleRule prelude => stepInStyleRule prelude

/-- The rule that the end of the list completes. -/
def finish : RuleReader → Option Rule
  | inAtRule name prelude => some (atRule name prelude .absent)
  | between | inStyleRule _ => none

/-- Reads a whole list. -/
def run (topLevel : Bool) : RuleReader → List Value → List Rule
  | r, [] => r.finish.toList
  | r, v :: vs => (r.step topLevel v).2.toList ++ run topLevel (r.step topLevel v).1 vs

end RuleReader

/-- The rules in the contents of a block. -/
def Rule.listOfValues (vs : List Value) : List Rule := RuleReader.between.run false vs

namespace Sheet

/-- The sheet that component values make up. -/
def ofValues (vs : List Value) : Sheet := ⟨RuleReader.between.run true vs⟩

/-- The sheet that tokens make up. -/
def ofTokens (ts : List Token) : Sheet := ofValues (Value.ofTokens ts)

end Sheet

end CssSieve
