import CssSieve.Policy.Options
import CssSieve.Proofs.Sheet.Finishing

/-!
# Checking comes to an end

A check of rules goes into the rules of media rules, which may first be read from an unread block,
and checks them in the same way. Here it does so only up to a depth, and gives nothing where it
would have to go deeper; nothing in it says that rules nest less deeply than the rule they belong
to. Given more depth than the rules nest, it is never cut off, and comes to what the policy checks
(`walk_eq_some`).
-/

namespace CssSieve

namespace Policy

/-- A check of rules that may be cut off. -/
abbrev Walk := List Rule → Option (Checked (List Rule))

/-- Checks the block of an at-rule, with `inner` for the rules inside a media rule. -/
def walkBlock (inner : Walk) (known : AtRulePolicy) (index : Nat) (r : AtRule) :
    Option (Checked (Option AtRule)) :=
  match known with
  | .fontFace descriptors => some (AtRulePolicy.checkDeclarations descriptors index r)
  | .page _ declarations => some (AtRulePolicy.checkDeclarations declarations index r)
  | .keyframes _ frames => some (AtRulePolicy.checkFrames frames index r)
  | .custom check => some (check index r)
  | .media _ =>
    match r.block.rules? with
    | none => some (.drop (AtRulePolicy.invalid index r.name "expected a block of rules") [])
    | some rules =>
      (inner rules).map (·.inside index fun kept => ⟨r.name, r.prelude, .rules kept⟩)

/-- Checks the rule at an index of its list. -/
def walkRule (policy : Policy) (inner : Walk) (index : Nat) : Rule → Option (Checked (Option Rule))
  | .style r => some ((policy.styleRules.check index r).as .style)
  | .at r =>
    match policy.atRules.get? r.name with
    | none => some (.drop (unknownAtRule index r.name) [])
    | some known =>
      match known.preludeFault? r.prelude with
      | some why => some (.drop (AtRulePolicy.invalid index r.name why) [])
      | none => (walkBlock inner known index r).map (·.as .at)

/-- Checks rules from an index of their list on. -/
def walkFrom (policy : Policy) (inner : Walk) : (index : Nat) → Walk
  | _, [] => some ⟨[], []⟩
  | index, r :: rs => do
    let first ← policy.walkRule inner index r
    let rest ← policy.walkFrom inner (index + 1) rs
    some (first.followedBy rest)

/-- Checks a list of rules, and the rules inside them up to a depth. -/
def walk (policy : Policy) : (depth : Nat) → Walk
  | 0, _ => none
  | depth + 1, rules => policy.walkFrom (policy.walk depth) 0 rules

variable {policy : Policy} {inner : Walk}

theorem walkBlock_eq_some {r : AtRule}
    (ends : ∀ rules, r.block.rules? = some rules → inner rules = some (policy.checkFrom 0 rules))
    (known : AtRulePolicy) (index : Nat) :
    walkBlock inner known index r = some (policy.checkBlock known index r) := by
  cases known with
  | fontFace | page | keyframes | custom => rw [walkBlock, checkBlock]
  | media queries =>
      rw [walkBlock, checkBlock]
      split
      next unread =>
        split
        next => rfl
        next rules read => rw [unread] at read; cases read
      next rules read =>
        split
        next unread => rw [read] at unread; cases unread
        next rules' read' =>
          rw [read] at read'
          cases read'
          rw [ends rules read]
          rfl

theorem walkRule_eq_some {rule : Rule}
    (ends : ∀ rules, Rule.nestingAll rules < rule.nesting →
      inner rules = some (policy.checkFrom 0 rules)) (index : Nat) :
    policy.walkRule inner index rule = some (policy.checkRule index rule) := by
  cases rule with
  | style r => rw [walkRule, checkRule]
  | «at» r =>
      -- the rules of the block nest less deeply than this rule, whichever at-rule it is
      have blocks : ∀ known, walkBlock inner known index r =
          some (policy.checkBlock known index r) := by
        refine fun known => walkBlock_eq_some (fun rules read => ends rules ?_) known index
        rw [Rule.nesting, AtRule.nesting_eq]
        exact AtBlock.nestingAll_lt_of_rules? read
      rw [walkRule, checkRule]
      cases policy.atRules.get? r.name with
      | none => rfl
      | some known =>
          dsimp only
          cases known.preludeFault? r.prelude with
          | some why => rfl
          | none =>
              dsimp only
              rw [blocks known]
              rfl

theorem walkFrom_eq_some {rules : List Rule}
    (ends : ∀ held, Rule.nestingAll held < Rule.nestingAll rules →
      inner held = some (policy.checkFrom 0 held)) (index : Nat) :
    policy.walkFrom inner index rules = some (policy.checkFrom index rules) := by
  induction rules generalizing index with
  | nil => rw [walkFrom, checkFrom]
  | cons r rs ih =>
      rw [Rule.nestingAll] at ends
      have first : policy.walkRule inner index r = some (policy.checkRule index r) :=
        walkRule_eq_some (fun held less => ends held (by omega)) index
      have rest := ih (fun held less => ends held (by omega)) (index + 1)
      rw [walkFrom, first, rest, checkFrom]
      rfl

/-- The rules inside are cut off nowhere if there is more depth than the rules nest. -/
theorem walk_eq_some {rules : List Rule} {depth : Nat} (deep : Rule.nestingAll rules < depth) :
    policy.walk depth rules = some (policy.checkRules rules) := by
  induction depth generalizing rules with
  | zero => exact absurd deep (Nat.not_lt_zero _)
  | succ depth ih => exact walkFrom_eq_some (fun held less => ih (by omega)) 0

end Policy

/-- **Reading and checking come to an end.** Rules and declarations are read by loops that take
values at every turn and leave none, and a check never goes deeper than the rules nest, since the
rules of a block, read or unread, nest less deeply than the at-rule it belongs to. -/
theorem reading_and_checking_finish :
    (∀ topLevel, (RuleReader.turn topLevel).ReadsAll (RuleReader.between.run topLevel)) ∧
      DeclarationReader.turn.ReadsAll Declaration.listOfValues ∧
      (∀ (r : AtRule) (rules : List Rule), r.block.rules? = some rules →
        Rule.nestingAll rules < r.nesting) ∧
      ∀ (policy : Policy) (rules : List Rule) (depth : Nat), Rule.nestingAll rules < depth →
        policy.walk depth rules = some (policy.checkRules rules) := by
  refine ⟨RuleReader.rules_read_in_turns, DeclarationReader.declarations_read_in_turns, ?_,
    fun policy rules depth deep => Policy.walk_eq_some deep⟩
  intro r rules read
  rw [AtRule.nesting_eq]
  exact AtBlock.nestingAll_lt_of_rules? read

/-- Media rules in unread blocks, one inside the other, with a style rule that is cut short. -/
theorem reading_and_checking_finish_nested_media :
    let block : List Value := [.token (.ident "p"), .block '\x7b' [], .token (.ident "q")]
    let inner : List Value := [.token (.atKeyword "media"), .block '\x7b' block]
    let r : AtRule := ⟨"media", [], .raw inner⟩
    let p : Rule := .style ⟨[.token (.ident "p")], []⟩
    (∃ turns ≤ 3, Finishes (RuleReader.turn false).loop turns ([], block) ([p], [])) ∧
      (∃ turns ≤ 3, Finishes DeclarationReader.turn.loop turns ([], block) ([], [])) ∧
      r.block.rules? = some [.at ⟨"media", [], .raw block⟩] ∧
      Rule.nestingAll [.at ⟨"media", [], .raw block⟩] < r.nesting ∧
      Rule.nestingAll [.at r] < 4 ∧
      (Policy.standard.checkRules [.at r]).kept =
        [.at ⟨"media", [], .rules [.at ⟨"media", [], .rules [p]⟩]⟩] := by
  intro block inner r p
  obtain ⟨rules, declarations, less, checked⟩ := reading_and_checking_finish
  have read : r.block.rules? = some [.at ⟨"media", [], .raw block⟩] := by decide +kernel
  have deep : Rule.nestingAll [.at r] < 4 := by decide +kernel
  refine ⟨?_, ?_, read, less r _ read, deep, ?_⟩
  · obtain ⟨turns, few, ends⟩ := (rules false).finishes block
    have found : RuleReader.between.run false block = [p] := by decide +kernel
    exact ⟨turns, few, found ▸ ends⟩
  · obtain ⟨turns, few, ends⟩ := declarations.finishes block
    have found : Declaration.listOfValues block = [] := by decide +kernel
    exact ⟨turns, few, found ▸ ends⟩
  · have walked : (Policy.standard.walk 4 [.at r]).map (·.kept) =
        some [.at ⟨"media", [], .rules [.at ⟨"media", [], .rules [p]⟩]⟩] := by
      decide +kernel
    rw [checked Policy.standard _ 4 deep] at walked
    exact Option.some_inj.mp walked

end CssSieve
