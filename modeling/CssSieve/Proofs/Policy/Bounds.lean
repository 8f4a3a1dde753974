import CssSieve.Proofs.Limits.Allowing
import CssSieve.Proofs.Policy.Survival

/-!
# Limits and sanitized sheets

Sanitizing leaves out rules and declarations and shortens values, so it stays within every limit;
but it also reads the blocks that are unread, and the limits count an unread block as values only.
So the sheet to be held against the limits is the one with its blocks read (`Policy.read`): whatever
is allowed of it is allowed of the sanitized sheet. Where no block is unread the two are the same
sheet.
-/

namespace CssSieve

namespace Limits

variable {l : Limits}

theorem allowsDeclaration_keptForm {d : Declaration} (h : l.AllowsDeclaration d) :
    l.AllowsDeclaration d.keptForm := by
  have shorter : d.keptForm.value <+: d.value := by
    rw [Declaration.keptForm, DeclarationPolicy.annotated]
    split
    next => exact List.prefix_rfl
    next =>
      split
      next => exact List.prefix_rfl
      next => exact stripImportant_front d.value
  obtain ⟨short, shallow⟩ := h
  refine ⟨Nat.le_trans shorter.length_le short, ?_⟩
  rw [AllowsValues, Value.depthAll_le_iff] at shallow ⊢
  intro v hv
  exact shallow v (shorter.subset hv)

theorem allowsRule_withDeclarations {depth : Nat} {rule : Rule} {ds kept : List Declaration}
    (h : (∀ d ∈ ds, l.AllowsDeclaration d) → ∀ d ∈ kept, l.AllowsDeclaration d)
    (allowed : l.AllowsRule depth (rule.withDeclarations ds)) :
    l.AllowsRule depth (rule.withDeclarations kept) := by
  cases rule with
  | style r => exact ⟨allowed.1, h allowed.2⟩
  | «at» r => exact ⟨allowed.1, h allowed.2⟩

theorem allowsRule_withRules {depth : Nat} {rule : Rule} {rules kept : List Rule}
    (h : l.AllowsRules (depth + 1) rules → l.AllowsRules (depth + 1) kept)
    (allowed : l.AllowsRule depth (rule.withRules rules)) :
    l.AllowsRule depth (rule.withRules kept) := by
  cases rule with
  | style r => exact allowed
  | «at» r => exact ⟨allowed.1, allowed.2.1, h allowed.2.2⟩

end Limits

theorem Rule.count_withDeclarations (rule : Rule) (ds : List Declaration) :
    (rule.withDeclarations ds).count = 1 := by
  cases rule <;> rfl

theorem Rule.count_withRules_le {rule : Rule} {rules kept : List Rule}
    (h : countAll kept ≤ countAll rules) :
    (rule.withRules kept).count ≤ (rule.withRules rules).count := by
  cases rule with
  | style r => exact Nat.le_refl _
  | «at» r => exact Nat.add_le_add_left h 1

theorem AtBlock.eq_declarations_of_read {block : AtBlock} (read_before : ∀ vs, block ≠ .raw vs)
    {ds : List Declaration} (h : block.declarations? = some ds) : block = .declarations ds := by
  cases block with
  | raw vs => exact absurd rfl (read_before vs)
  | declarations => exact congrArg AtBlock.declarations (Option.some.inj h)
  | absent | rules => cases h

theorem AtBlock.eq_rules_of_read {block : AtBlock} (read_before : ∀ vs, block ≠ .raw vs)
    {rules : List Rule} (h : block.rules? = some rules) : block = .rules rules := by
  cases block with
  | raw vs => exact absurd rfl (read_before vs)
  | rules => exact congrArg AtBlock.rules (Option.some.inj h)
  | absent | declarations => cases h

namespace Policy

variable {policy : Policy} {scope : Scope} {rule : Rule}

mutual

/-- Rules that stand together, with their blocks read. -/
def readAll (policy : Policy) (scope : Scope) (rules : List Rule) : List Rule :=
  match rules with
  | [] => []
  | r :: rs => policy.readRule scope r :: policy.readAll scope rs
termination_by (Rule.nestingAll rules, rules.length + 1)
decreasing_by
  · simp only [Rule.nestingAll, List.length_cons, Prod.lex_def]; omega
  · simp only [Rule.nestingAll, List.length_cons, Prod.lex_def]; omega

/-- A rule with its block read, as far as the policy knows how to read it. -/
def readRule (policy : Policy) (scope : Scope) (rule : Rule) : Rule :=
  match _h : policy.contents? scope rule with
  | none => rule
  | some (.declarations _ ds) => rule.withDeclarations ds
  | some (.rules inner rules) => rule.withRules (policy.readAll inner rules)
termination_by (rule.nesting, 0)
decreasing_by
  · have := nestingAll_lt_of_contents? _h
    simp only [Prod.lex_def]
    omega

end

/-- The sheet with its blocks read. -/
def read (policy : Policy) (s : Sheet) : Sheet := ⟨policy.readAll .sheet s.rules⟩

theorem readAll_eq_map (scope : Scope) (rules : List Rule) :
    policy.readAll scope rules = rules.map (policy.readRule scope) := by
  induction rules with
  | nil => rw [readAll, List.map_nil]
  | cons r rs ih => rw [readAll, ih, List.map_cons]

theorem readAll_eq_self {rules : List Rule} (h : ∀ r ∈ rules, policy.readRule scope r = r) :
    policy.readAll scope rules = rules := by
  rw [readAll_eq_map, List.map_congr_left h, List.map_id']

theorem readRule_of_declarations {own : DeclarationPolicy} {ds : List Declaration}
    (held : policy.contents? scope rule = some (.declarations own ds)) :
    policy.readRule scope rule = rule.withDeclarations ds := by
  rw [readRule]
  split <;> simp_all

theorem readRule_of_rules {inner : Scope} {rules : List Rule}
    (held : policy.contents? scope rule = some (.rules inner rules)) :
    policy.readRule scope rule = rule.withRules (policy.readAll inner rules) := by
  rw [readRule]
  split <;> simp_all

theorem readRule_of_none (held : policy.contents? scope rule = none) :
    policy.readRule scope rule = rule := by
  rw [readRule]
  split <;> simp_all

/-! ## What is kept of a rule is no more than the rule with its block read -/

/-- One rule is allowed wherever another is, and makes no more rules. -/
def NoMore (kept read : Rule) : Prop :=
  kept.count ≤ read.count ∧
    ∀ (l : Limits) (depth : Nat), l.AllowsRule depth read → l.AllowsRule depth kept

theorem survivors_noMore {scope : Scope} (rules : List Rule)
    (h : ∀ r ∈ rules, ∀ kept, policy.keep scope r = some kept →
      NoMore kept (policy.readRule scope r)) :
    Rule.countAll (policy.survivors scope rules) ≤ Rule.countAll (policy.readAll scope rules) ∧
      ∀ (l : Limits) (depth : Nat), l.AllowsRules depth (policy.readAll scope rules) →
        l.AllowsRules depth (policy.survivors scope rules) := by
  simp only [readAll_eq_map, survivors]
  induction rules with
  | nil => exact ⟨Nat.le_refl _, fun _ _ allowed => allowed⟩
  | cons r rs ih =>
      obtain ⟨fewer, allowed⟩ := ih fun q hq => h q (List.mem_cons_of_mem r hq)
      rw [List.map_cons, List.filterMap_cons, Rule.countAll]
      cases found : policy.keep scope r with
      | none =>
          exact ⟨Nat.le_trans fewer (Nat.le_add_left _ _), fun l depth both =>
            allowed l depth both.2⟩
      | some kept =>
          obtain ⟨here, allowed_here⟩ := h r List.mem_cons_self kept found
          exact ⟨Nat.add_le_add here fewer, fun l depth both =>
            ⟨allowed_here l depth both.1, allowed l depth both.2⟩⟩

theorem noMore_of_keep (standard : policy.Standard) {kept : Rule}
    (h : policy.keep scope rule = some kept) : NoMore kept (policy.readRule scope rule) := by
  induction scope, rule using induction_on_contents policy generalizing kept with
  | step scope rule ih =>
      have fate := fate_keep standard scope rule
      rw [h] at fate
      cases fate with
      | @declarations own ds _ held =>
          rw [readRule_of_declarations held]
          refine ⟨by simp only [Rule.count_withDeclarations, Nat.le_refl], ?_⟩
          intro l depth allowed
          refine Limits.allowsRule_withDeclarations ?_ allowed
          intro all d hd
          obtain ⟨source, hsource, rfl⟩ := List.mem_map.mp hd
          exact Limits.allowsDeclaration_keptForm (all source (List.mem_of_mem_filter hsource))
      | rules _ held =>
          rw [readRule_of_rules held]
          obtain ⟨fewer, allowed⟩ := survivors_noMore _ fun r hr kept => ih _ _ held r hr
          exact ⟨Rule.count_withRules_le fewer, fun l depth =>
            Limits.allowsRule_withRules (allowed l (depth + 1))⟩

/-! ## Sheets without unread blocks -/

/-- No at-rule in or inside the rules has an unread block. -/
def NoneUnread (rules : List Rule) : Prop :=
  ∀ r, Rule.Inside rules (.at r) → ∀ vs, r.block ≠ .raw vs

theorem noneUnread_of_mem {rules : List Rule} (h : NoneUnread rules) (hr : rule ∈ rules) :
    NoneUnread [rule] := by
  intro r inside
  apply h r
  generalize single_eq : [rule] = single at inside
  cases inside with
  | here found =>
      subst single_eq
      exact .here (List.mem_singleton.mp found ▸ hr)
  | deeper found inner =>
      subst single_eq
      exact .deeper (List.mem_singleton.mp found ▸ hr) inner

theorem noneUnread_of_rules {name : String} {prelude : List Value} {rules : List Rule}
    (h : NoneUnread [.at ⟨name, prelude, .rules rules⟩]) : NoneUnread rules := by
  intro r inside
  exact h r (.deeper List.mem_cons_self inside)

theorem readRule_eq_self (none_unread : NoneUnread [rule]) :
    policy.readRule scope rule = rule := by
  induction scope, rule using induction_on_contents policy with
  | step scope rule ih =>
      cases held : policy.contents? scope rule with
      | none => exact readRule_of_none held
      | some contents =>
          cases rule with
          | style r =>
              cases held
              exact readRule_of_declarations rfl
          | «at» r =>
              obtain ⟨name, prelude, block⟩ := r
              have read_before := none_unread ⟨name, prelude, block⟩ (.here List.mem_cons_self)
              obtain ⟨-, known, -, opened⟩ := known_of_contents? held
              cases contents with
              | declarations own ds =>
                  have read := AtRulePolicy.declarations?_of_contents? opened
                  obtain rfl := AtBlock.eq_declarations_of_read read_before read
                  rw [readRule_of_declarations held]
                  rfl
              | rules inner rules =>
                  have read := AtRulePolicy.rules?_of_contents? opened
                  obtain rfl := AtBlock.eq_rules_of_read read_before read
                  have inside : ∀ r ∈ rules, policy.readRule inner r = r := by
                    intro r hr
                    apply ih inner rules held r hr
                    exact noneUnread_of_mem (noneUnread_of_rules none_unread) hr
                  rw [readRule_of_rules held, readAll_eq_self inside]
                  rfl

theorem read_eq_self {s : Sheet} (none_unread : NoneUnread s.rules) : policy.read s = s := by
  rw [read, readAll_eq_self fun r hr => readRule_eq_self (noneUnread_of_mem none_unread hr)]

end Policy

/-- **Sanitizing stays within the limits.** If the sheet with its blocks read is within the limits,
so is the sanitized sheet; and where no block is unread, that is the sheet as it stands. -/
theorem check_sanitize (o : PolicyOptions) (l : Limits) (s : Sheet) :
    let policy := o.standardOnly.build
    (l.check (policy.read s) = .ok () → l.check (policy.sanitize s).sheet = .ok ()) ∧
      (Policy.NoneUnread s.rules → l.check s = .ok () →
        l.check (policy.sanitize s).sheet = .ok ()) := by
  intro policy
  have standard : policy.Standard := o.standard_standardOnly
  have of_read : l.check (policy.read s) = .ok () → l.check (policy.sanitize s).sheet = .ok () := by
    intro passed
    obtain ⟨allowed, few⟩ := Limits.check_eq_ok.mp passed
    obtain ⟨fewer, still_allowed⟩ := Policy.survivors_noMore s.rules
      fun r _ kept (found : policy.keep .sheet r = some kept) =>
        Policy.noMore_of_keep standard found
    apply Limits.check_eq_ok.mpr
    rw [Policy.rules_sanitize standard]
    exact ⟨still_allowed l 0 allowed, Nat.le_trans fewer few⟩
  refine ⟨of_read, ?_⟩
  intro none_unread passed
  apply of_read
  rwa [Policy.read_eq_self none_unread]

theorem check_sanitize_print :
    let o : PolicyOptions := { primitives := .standard }
    let policy := o.standardOnly.build
    let l : Limits := { maxRules := 2, maxDepth := 1 }
    let s : Sheet := ⟨[.at ⟨"media", [.token (.ident "print")],
      .rules [.style ⟨[.token (.ident "p")], []⟩]⟩]⟩
    (Policy.NoneUnread s.rules ∧ l.check s = .ok () ∧ l.check (policy.read s) = .ok ()) ∧
      l.check (policy.sanitize s).sheet = .ok () := by
  intro o policy l s
  have none_unread : Policy.NoneUnread s.rules := by
    intro r inside vs
    cases inside with
    | here found =>
        cases List.mem_singleton.mp found
        simp
    | deeper found inner =>
        cases List.mem_singleton.mp found
        cases inner with
        | here found => cases List.mem_singleton.mp found
        | deeper found inner => cases List.mem_singleton.mp found
  have passed : l.check s = .ok () := by decide +kernel
  have passed_read : l.check (policy.read s) = .ok () := by
    rwa [Policy.read_eq_self none_unread]
  exact ⟨⟨none_unread, passed, passed_read⟩, (check_sanitize o l s).2 none_unread passed⟩

/-- An unread block counts for no rule, yet what is read from it does: a sheet of one media rule
with two style rules in it passes a limit of two rules, and no rule of it is dropped. -/
theorem rules_of_block_exceed_limit :
    let o : PolicyOptions := { primitives := .standard }
    let policy := o.standardOnly.build
    let s := Sheet.ofTokens
      [.atKeyword "media", .leftBrace, .ident "p", .leftBrace, .rightBrace, .ident "q", .leftBrace,
        .rightBrace, .rightBrace]
    let l : Limits := { maxRules := 2 }
    l.check s = .ok () ∧
      l.check (policy.sanitize s).sheet = .error (.tooManyRules 3 2) := by
  intro o policy s l
  have standard : policy.Standard := o.standard_standardOnly
  let styled (name : String) : Rule := .style ⟨[.token (.ident name)], []⟩
  let contents : List Value :=
    [.token (.ident "p"), .block '\x7b' [], .token (.ident "q"), .block '\x7b' []]
  have parsed : s.rules = [.at ⟨"media", [], .raw contents⟩] := by decide +kernel
  have read : Rule.listOfValues contents = [styled "p", styled "q"] := by decide +kernel
  have kept_style (name : String) (h : name ∈ ["p", "q"]) :
      policy.keep .sheet (styled name) = some (styled name) := by
    have selected : ∀ name ∈ ["p", "q"], Selector.list.matchesAll [.token (.ident name)] := by
      decide +kernel
    have admitted : policy.Admits .sheet (styled name) := selected name h
    rw [Policy.keep_of_declarations admitted rfl]
    rfl
  have known : policy.atRules.get? "media" = some (.mediaOf .standard) := by
    apply (PolicyOptions.get?_standardOnly (o := o)).mpr
    rw [PolicyOptions.lower_media]
    exact List.mem_cons_of_mem _ List.mem_cons_self
  have prelude : (MediaQuery.list .standard).matchesAll [] := by decide +kernel
  have held : policy.contents? .sheet (.at ⟨"media", [], .raw contents⟩) =
      some (.rules .sheet [styled "p", styled "q"]) := by
    rw [Policy.contents?, known, ← read]
    rfl
  have kept_media : policy.keep .sheet (.at ⟨"media", [], .raw contents⟩) =
      some (.at ⟨"media", [], .rules [styled "p", styled "q"]⟩) := by
    have admitted : policy.Admits .sheet (.at ⟨"media", [], .raw contents⟩) :=
      ⟨_, known, prelude, trivial⟩
    rw [Policy.keep_of_rules standard admitted held]
    simp [Policy.survivors, kept_style, Rule.withRules]
  refine ⟨by decide +kernel, ?_⟩
  have output : (policy.sanitize s).sheet =
      ⟨[.at ⟨"media", [], .rules [styled "p", styled "q"]⟩]⟩ := by
    have rules := Policy.rules_sanitize standard s
    rw [parsed, Policy.survivors, List.filterMap_cons, kept_media, List.filterMap_nil] at rules
    exact congrArg Sheet.mk rules
  rw [output]
  decide +kernel

end CssSieve
