import CssSieve.Policy.AtRule

/-!
# Checking whole sheets

A policy says what a sheet may hold: style rules, and the at-rules it knows by name. `sanitize`
keeps what the policy allows, in order, and explains everything it drops. It descends into media
rules as deeply as they nest; the rules read from a block nest less deeply than the rule that the
block belongs to, so it comes to an end.
-/

namespace CssSieve

structure Policy where
  styleRules : StyleRulePolicy
  atRules : NameTable AtRulePolicy

/-- A sheet of which everything was allowed, and why the rest was dropped, in document order. -/
structure Sanitized where
  sheet : Sheet
  diagnostics : List Diagnostic
deriving DecidableEq

namespace Policy

def unknownAtRule (index : Nat) (name : String) : Diagnostic :=
  .error .unknownAtRule (.rule index) s!"unknown at-rule @{name}"

mutual

/-- Checks rules from an index of their list on. -/
def checkFrom (policy : Policy) (index : Nat) (rules : List Rule) : Checked (List Rule) :=
  match rules with
  | [] => ⟨[], []⟩
  | r :: rs => (policy.checkRule index r).followedBy (policy.checkFrom (index + 1) rs)
termination_by (Rule.nestingAll rules, rules.length + 1)
decreasing_by
  · simp only [Rule.nestingAll, List.length_cons, Prod.lex_def]; omega
  · simp only [Rule.nestingAll, List.length_cons, Prod.lex_def]; omega

/-- Checks the rule at an index of its list. -/
def checkRule (policy : Policy) (index : Nat) (rule : Rule) : Checked (Option Rule) :=
  match rule with
  | .style r => (policy.styleRules.check index r).as .style
  | .at r =>
      match policy.atRules.get? r.name with
      | none => .drop (unknownAtRule index r.name) []
      | some known =>
          match known.preludeFault? r.prelude with
          | some why => .drop (AtRulePolicy.invalid index r.name why) []
          | none => (policy.checkBlock known index r).as .at
termination_by (rule.nesting, 1)
decreasing_by
  · exact Prod.Lex.right _ Nat.zero_lt_one

/-- Checks the block of an at-rule whose prelude is in order. -/
def checkBlock (policy : Policy) (known : AtRulePolicy) (index : Nat) (r : AtRule) :
    Checked (Option AtRule) :=
  match known with
  | .fontFace descriptors => AtRulePolicy.checkDeclarations descriptors index r
  | .page _ declarations => AtRulePolicy.checkDeclarations declarations index r
  | .keyframes _ frames => AtRulePolicy.checkFrames frames index r
  | .custom check => check index r
  | .media _ =>
      match _h : r.block.rules? with
      | none => .drop (AtRulePolicy.invalid index r.name "expected a block of rules") []
      | some rules =>
          (policy.checkFrom 0 rules).inside index fun kept => ⟨r.name, r.prelude, .rules kept⟩
termination_by (r.nesting, 0)
decreasing_by
  · have := AtBlock.nestingAll_lt_of_rules? _h
    simp only [AtRule.nesting_eq, Prod.lex_def]
    omega

end

/-- Checks a list of rules. -/
def checkRules (policy : Policy) (rules : List Rule) : Checked (List Rule) :=
  policy.checkFrom 0 rules

/-- The sheet without what the policy does not allow. -/
def sanitize (policy : Policy) (s : Sheet) : Sanitized :=
  let checked := policy.checkRules s.rules
  ⟨⟨checked.kept⟩, checked.diagnostics⟩

/-- Reads tokens as a sheet and drops from it what the policy does not allow. -/
def sanitizeTokens (policy : Policy) (ts : List Token) : Sanitized :=
  policy.sanitize (Sheet.ofTokens ts)

end Policy

end CssSieve
