import CssSieve.Policy.Basic
import CssSieve.Proofs.Policy.Acceptance

/-!
# Opening rules

A check of a rule looks at the rule by itself first: whether it is admitted where it stands. An
admitted rule is opened, and what it holds is checked on its own. `contents?` says what a rule
holds, once for style rules and for every kind of at-rule. A rule is refused, or it holds
declarations, or it holds rules (`refused_or_opened`), and three lemmas say what a check does then:
a refused rule is dropped (`exists_drop_of_not_admits`), and an admitted one is rebuilt around its
checked declarations (`checkIn_of_declarations`) or rules (`checkIn_of_rules`). The rules inside
nest less deeply, which gives `induction_on_contents`.

At-rules that are checked by a function of the host's own are left out here: a policy without them
is `Standard`.
-/

namespace CssSieve

/-- Where a rule stands. -/
inductive Scope where
  /-- In the list of a sheet or of a media rule. -/
  | sheet
  /-- Directly inside keyframes. -/
  | frames (frames : StyleRulePolicy)

/-- What a rule holds, and what is said about it there. -/
inductive Contents where
  | declarations (policy : DeclarationPolicy) (declarations : List Declaration)
  | rules (scope : Scope) (rules : List Rule)

namespace AtRulePolicy

def Standard : AtRulePolicy → Prop
  | custom _ => False
  | _ => True

def PreludeFits : AtRulePolicy → List Value → Prop
  | fontFace _, prelude => ∀ v ∈ prelude, v.isWhitespace
  | media queries, prelude => queries.matchesAll prelude
  | keyframes name _, prelude => name.matchesAll prelude
  | page selectors _, prelude => selectors.matchesAll prelude
  | custom _, _ => False

/-- A block may be unread, or read as what the at-rule holds. -/
def BlockFits : AtRulePolicy → AtBlock → Prop
  | fontFace _, .raw _ | fontFace _, .declarations _ => True
  | page _ _, .raw _ | page _ _, .declarations _ => True
  | media _, .raw _ | media _, .rules _ => True
  | keyframes _ _, .raw _ | keyframes _ _, .rules _ => True
  | _, _ => False

/-- What the block of an at-rule holds. -/
def contents? : AtRulePolicy → AtBlock → Option Contents
  | fontFace descriptors, block => block.declarations?.map (.declarations descriptors)
  | media _, block => block.rules?.map (.rules .sheet)
  | keyframes _ frames, block => block.rules?.map (.rules (.frames frames))
  | page _ policy, block => block.declarations?.map (.declarations policy)
  | custom _, _ => none

theorem blockFits_iff (known : AtRulePolicy) (block : AtBlock) :
    known.BlockFits block ↔ (known.contents? block).isSome := by
  cases known <;> cases block <;> simp [BlockFits, contents?, AtBlock.declarations?, AtBlock.rules?]

theorem preludeFits_iff {known : AtRulePolicy} (h : known.Standard) (prelude : List Value) :
    known.PreludeFits prelude ↔ known.preludeFault? prelude = none := by
  cases known with
  | custom check => exact h.elim
  | fontFace | media | keyframes | page => simp [PreludeFits, preludeFault?]

theorem preludeFault?_of_fits {known : AtRulePolicy} {prelude : List Value}
    (h : known.PreludeFits prelude) : known.preludeFault? prelude = none := by
  refine (preludeFits_iff ?_ prelude).mp h
  cases known with
  | custom check => exact h.elim
  | fontFace | media | keyframes | page => trivial

instance (known : AtRulePolicy) : DecidablePred known.PreludeFits := fun prelude => by
  cases known <;> unfold PreludeFits <;> infer_instance

instance (known : AtRulePolicy) : DecidablePred known.BlockFits := fun block =>
  decidable_of_iff _ (known.blockFits_iff block).symm

theorem contents?_declarations {known : AtRulePolicy} {block : AtBlock} {own : DeclarationPolicy}
    {ds : List Declaration} (h : known.contents? block = some (.declarations own ds))
    (others : List Declaration) :
    known.contents? (.declarations others) = some (.declarations own others) := by
  cases known <;> simp_all [contents?, AtBlock.declarations?]

theorem contents?_rules {known : AtRulePolicy} {block : AtBlock} {scope : Scope}
    {rules : List Rule} (h : known.contents? block = some (.rules scope rules))
    (others : List Rule) : known.contents? (.rules others) = some (.rules scope others) := by
  cases known <;> simp_all [contents?, AtBlock.rules?]

theorem declarations?_of_contents? {known : AtRulePolicy} {block : AtBlock}
    {own : DeclarationPolicy} {ds : List Declaration}
    (h : known.contents? block = some (.declarations own ds)) :
    block.declarations? = some ds := by
  cases known <;> simp [contents?] at h <;> simp [h]

theorem rules?_of_contents? {known : AtRulePolicy} {block : AtBlock} {scope : Scope}
    {rules : List Rule} (h : known.contents? block = some (.rules scope rules)) :
    block.rules? = some rules := by
  cases known <;> simp [contents?] at h <;> simp [h]

theorem nestingAll_lt_of_contents? {known : AtRulePolicy} {block : AtBlock} {scope : Scope}
    {rules : List Rule} (h : known.contents? block = some (.rules scope rules)) :
    Rule.nestingAll rules < block.nesting :=
  AtBlock.nestingAll_lt_of_rules? (rules?_of_contents? h)

end AtRulePolicy

namespace Rule

/-- The rule with other declarations. -/
def withDeclarations (declarations : List Declaration) : Rule → Rule
  | style r => style ⟨r.prelude, declarations⟩
  | .at r => .at ⟨r.name, r.prelude, .declarations declarations⟩

/-- The rule with other rules inside. A style rule holds none. -/
def withRules (rules : List Rule) : Rule → Rule
  | style r => style r
  | .at r => .at ⟨r.name, r.prelude, .rules rules⟩

theorem nesting_le_of_mem {rule : Rule} {rules : List Rule} (h : rule ∈ rules) :
    rule.nesting ≤ nestingAll rules := by
  induction rules with
  | nil => simp at h
  | cons r rs ih =>
      rw [nestingAll]
      rcases List.mem_cons.mp h with rfl | h
      · exact Nat.le_max_left _ _
      · exact Nat.le_trans (ih h) (Nat.le_max_right _ _)

end Rule

namespace Policy

def Standard (policy : Policy) : Prop :=
  ∀ name, ∀ known ∈ policy.atRules.get? name, known.Standard

/-- What is required of style rules. -/
def styleRulesIn (policy : Policy) : Scope → StyleRulePolicy
  | .sheet => policy.styleRules
  | .frames frames => frames

/-- The check of a rule where it stands. -/
def checkIn (policy : Policy) : Scope → Nat → Rule → Checked (Option Rule)
  | .sheet => policy.checkRule
  | .frames frames => AtRulePolicy.checkFrame frames

/-- What a rule holds, unless nobody knows how to read it. -/
def contents? (policy : Policy) : Scope → Rule → Option Contents
  | scope, .style r => some (.declarations (policy.styleRulesIn scope).declarations r.declarations)
  | .frames _, .at _ => none
  | .sheet, .at r => (policy.atRules.get? r.name).bind (·.contents? r.block)

/-- A rule is admitted for what it says itself, whatever it holds. -/
def Admits (policy : Policy) : Scope → Rule → Prop
  | scope, .style r => (policy.styleRulesIn scope).selectors.matchesAll r.prelude
  | .frames _, .at _ => False
  | .sheet, .at r => ∃ known ∈ policy.atRules.get? r.name,
      known.PreludeFits r.prelude ∧ known.BlockFits r.block

instance (policy : Policy) (scope : Scope) : DecidablePred (policy.Admits scope) := fun rule => by
  cases rule <;> cases scope <;> unfold Admits <;> infer_instance

variable {policy : Policy} {scope : Scope} {rule : Rule}

theorem admits_style {r : StyleRule} :
    policy.Admits scope (.style r) ↔
      (policy.styleRulesIn scope).selectors.matchesAll r.prelude := by
  cases scope <;> rfl

/-! ## What a rule holds -/

/-- What an at-rule holds is read by what it is known as, and in a sheet only. -/
theorem known_of_contents? {r : AtRule} {held : Contents}
    (h : policy.contents? scope (.at r) = some held) :
    scope = .sheet ∧ ∃ known, policy.atRules.get? r.name = some known ∧
      known.contents? r.block = some held := by
  cases scope with
  | frames frames => cases h
  | sheet => exact ⟨rfl, Option.bind_eq_some_iff.mp h⟩

theorem nestingAll_lt_of_contents? {inner : Scope} {rules : List Rule}
    (h : policy.contents? scope rule = some (.rules inner rules)) :
    Rule.nestingAll rules < rule.nesting := by
  cases rule with
  | style r => simp [contents?] at h
  | «at» r =>
      obtain ⟨-, known, -, held⟩ := known_of_contents? h
      rw [Rule.nesting, AtRule.nesting_eq]
      exact AtRulePolicy.nestingAll_lt_of_contents? held

/-- Induction over the rules that a rule holds, wherever they are read from. -/
theorem induction_on_contents (policy : Policy) {motive : Scope → Rule → Prop}
    (step : ∀ scope rule,
      (∀ inner rules, policy.contents? scope rule = some (.rules inner rules) →
        ∀ r ∈ rules, motive inner r) → motive scope rule)
    (scope : Scope) (rule : Rule) : motive scope rule := by
  -- the rules held may come from an unread block, so the induction is on how deeply rules can nest
  have bounded : ∀ n scope rule, rule.nesting < n → motive scope rule := by
    intro n
    induction n with
    | zero => intro scope rule h; exact absurd h (Nat.not_lt_zero _)
    | succ n ih =>
        intro scope rule h
        apply step
        intro inner rules held r hr
        apply ih
        have below := nestingAll_lt_of_contents? held
        have within := Rule.nesting_le_of_mem hr
        omega
  exact bounded (rule.nesting + 1) scope rule (Nat.lt_succ_self _)

/-- An admitted at-rule stands in a sheet, and is opened by what it is known as. -/
theorem Admits.known {r : AtRule} (h : policy.Admits scope (.at r)) :
    scope = .sheet ∧ ∃ known, policy.atRules.get? r.name = some known ∧
      known.PreludeFits r.prelude ∧ known.BlockFits r.block ∧
      policy.contents? scope (.at r) = known.contents? r.block := by
  cases scope with
  | frames frames => exact h.elim
  | sheet =>
      obtain ⟨known, found, prelude, block⟩ := h
      have found : policy.atRules.get? r.name = some known := found
      exact ⟨rfl, known, found, prelude, block, by rw [contents?, found, Option.bind_some]⟩

/-- With another block that can be read, an admitted at-rule is admitted, and holds what is read. -/
theorem Admits.withBlock {r : AtRule} (h : policy.Admits scope (.at r)) {known : AtRulePolicy}
    (found : policy.atRules.get? r.name = some known) {block : AtBlock} {held : Contents}
    (read : known.contents? block = some held) :
    policy.Admits scope (.at ⟨r.name, r.prelude, block⟩) ∧
      policy.contents? scope (.at ⟨r.name, r.prelude, block⟩) = some held := by
  obtain ⟨rfl, known', found', prelude, -, -⟩ := h.known
  obtain rfl : known' = known := Option.some.inj (found'.symm.trans found)
  refine ⟨⟨known', found, prelude, ?_⟩, ?_⟩
  · rw [AtRulePolicy.blockFits_iff, read]
    rfl
  · rw [contents?, found, Option.bind_some, read]

/-- A rule is refused, or it is admitted with the declarations or the rules that it holds. -/
theorem refused_or_opened (policy : Policy) (scope : Scope) (rule : Rule) :
    ¬policy.Admits scope rule ∨
      (∃ own ds, policy.Admits scope rule ∧
        policy.contents? scope rule = some (.declarations own ds)) ∨
      ∃ inner rules, policy.Admits scope rule ∧
        policy.contents? scope rule = some (.rules inner rules) := by
  by_cases admitted : policy.Admits scope rule
  · right
    have opened : (policy.contents? scope rule).isSome := by
      cases rule with
      | style r => rfl
      | «at» r =>
          obtain ⟨-, known, -, -, block, same⟩ := admitted.known
          rw [same]
          exact (known.blockFits_iff r.block).mp block
    obtain ⟨held, opened⟩ := Option.isSome_iff_exists.mp opened
    cases held with
    | declarations own ds => exact Or.inl ⟨own, ds, admitted, opened⟩
    | rules inner rules => exact Or.inr ⟨inner, rules, admitted, opened⟩
  · exact Or.inl admitted

/-! ## What a check can do -/

theorem checkFrom_eq_each (policy : Policy) (index : Nat) (rules : List Rule) :
    policy.checkFrom index rules = Checked.each (policy.checkIn .sheet) index rules := by
  induction rules generalizing index with
  | nil => rw [checkFrom, Checked.each]
  | cons r rs ih => rw [checkFrom, Checked.each, ih, checkIn]

theorem checkFramesFrom_eq_each (policy : Policy) (frames : StyleRulePolicy) (index : Nat)
    (rules : List Rule) :
    AtRulePolicy.checkFramesFrom frames index rules =
      Checked.each (policy.checkIn (.frames frames)) index rules := by
  induction rules generalizing index with
  | nil => rfl
  | cons r rs ih => rw [AtRulePolicy.checkFramesFrom, Checked.each, ih, checkIn]

/-- The check of the rules that stand together. -/
def checkAllIn (policy : Policy) (scope : Scope) (rules : List Rule) : Checked (List Rule) :=
  Checked.each (policy.checkIn scope) 0 rules

theorem check_style (frames : StyleRulePolicy) (index : Nat) (r : StyleRule) :
    (frames.check index r).as Rule.style =
      if frames.selectors.matchesAll r.prelude then
        (frames.declarations.checkAll r.declarations).inside index
          fun kept => .style ⟨r.prelude, kept⟩
      else .drop (StyleRulePolicy.invalidSelector index r.prelude) [] := by
  rw [StyleRulePolicy.check]
  split <;> rfl

theorem checkIn_style (policy : Policy) (scope : Scope) (index : Nat) (r : StyleRule) :
    policy.checkIn scope index (.style r) =
      ((policy.styleRulesIn scope).check index r).as Rule.style := by
  cases scope with
  | sheet => rw [checkIn, checkRule, styleRulesIn]
  | frames frames => rfl

theorem checkIn_at {r : AtRule} {known : AtRulePolicy}
    (found : policy.atRules.get? r.name = some known)
    (prelude : known.preludeFault? r.prelude = none) (index : Nat) :
    policy.checkIn .sheet index (.at r) = (policy.checkBlock known index r).as Rule.at := by
  rw [checkIn, checkRule, found]
  simp only [prelude]

theorem checkBlock_of_declarations {r : AtRule} {known : AtRulePolicy}
    {descriptors : DeclarationPolicy} {ds : List Declaration}
    (held : known.contents? r.block = some (.declarations descriptors ds)) (index : Nat) :
    (policy.checkBlock known index r).as Rule.at =
      (descriptors.checkAll ds).inside index fun kept =>
        .at ⟨r.name, r.prelude, .declarations kept⟩ := by
  cases known with
  | fontFace own | page selectors own =>
      obtain ⟨ds', read, same⟩ := Option.map_eq_some_iff.mp held
      cases same
      rw [checkBlock, AtRulePolicy.checkDeclarations, read]
      rfl
  | media | keyframes | custom => simp [AtRulePolicy.contents?] at held

theorem checkBlock_of_rules {r : AtRule} {known : AtRulePolicy} {inner : Scope}
    {rules : List Rule} (held : known.contents? r.block = some (.rules inner rules))
    (index : Nat) :
    (policy.checkBlock known index r).as Rule.at =
      (policy.checkAllIn inner rules).inside index fun kept =>
        .at ⟨r.name, r.prelude, .rules kept⟩ := by
  cases known with
  | fontFace | page | custom => simp [AtRulePolicy.contents?] at held
  | media queries =>
      obtain ⟨rules', read, same⟩ := Option.map_eq_some_iff.mp held
      cases same
      rw [checkBlock]
      split
      next unread => rw [read] at unread; cases unread
      next opened read' =>
        rw [read] at read'
        cases read'
        rw [checkFrom_eq_each]
        rfl
  | keyframes name frames =>
      obtain ⟨rules', read, same⟩ := Option.map_eq_some_iff.mp held
      cases same
      rw [checkBlock, AtRulePolicy.checkFrames, read]
      simp only [checkFramesFrom_eq_each policy]
      rfl

/-- An admitted rule that holds declarations is rebuilt around those that are kept. -/
theorem checkIn_of_declarations {own : DeclarationPolicy} {ds : List Declaration}
    (admitted : policy.Admits scope rule)
    (held : policy.contents? scope rule = some (.declarations own ds)) (index : Nat) :
    policy.checkIn scope index rule = (own.checkAll ds).inside index (rule.withDeclarations ·) := by
  cases rule with
  | style r =>
      simp only [contents?, Option.some.injEq, Contents.declarations.injEq] at held
      obtain ⟨rfl, rfl⟩ := held
      rw [checkIn_style, check_style, if_pos (admits_style.mp admitted)]
      rfl
  | «at» r =>
      obtain ⟨rfl, known, found, prelude, -, opened⟩ := admitted.known
      rw [opened] at held
      rw [checkIn_at found (AtRulePolicy.preludeFault?_of_fits prelude),
        checkBlock_of_declarations held]
      rfl

/-- An admitted rule that holds rules is rebuilt around those that are kept. -/
theorem checkIn_of_rules {inner : Scope} {rules : List Rule}
    (admitted : policy.Admits scope rule)
    (held : policy.contents? scope rule = some (.rules inner rules)) (index : Nat) :
    policy.checkIn scope index rule =
      (policy.checkAllIn inner rules).inside index (rule.withRules ·) := by
  cases rule with
  | style r => simp [contents?] at held
  | «at» r =>
      obtain ⟨rfl, known, found, prelude, -, opened⟩ := admitted.known
      rw [opened] at held
      rw [checkIn_at found (AtRulePolicy.preludeFault?_of_fits prelude), checkBlock_of_rules held]
      rfl

/-- A block that does not fit is not looked into. -/
theorem exists_drop_of_misfit (policy : Policy) {r : AtRule} {known : AtRulePolicy}
    (standard : known.Standard) (misfit : ¬known.BlockFits r.block) (index : Nat) :
    ∃ why, policy.checkBlock known index r = .drop (AtRulePolicy.invalid index r.name why) [] := by
  have unread : known.contents? r.block = none := by
    simpa [AtRulePolicy.blockFits_iff] using misfit
  cases known with
  | custom check => exact standard.elim
  | fontFace | page =>
      rw [checkBlock, AtRulePolicy.checkDeclarations, Option.map_eq_none_iff.mp unread]
      exact ⟨_, rfl⟩
  | keyframes =>
      rw [checkBlock, AtRulePolicy.checkFrames, Option.map_eq_none_iff.mp unread]
      exact ⟨_, rfl⟩
  | media =>
      rw [checkBlock]
      split
      next => exact ⟨_, rfl⟩
      next rules read => rw [Option.map_eq_none_iff.mp unread] at read; cases read

/-- A rule that is not admitted is dropped, with one error at its index and no notes. -/
theorem exists_drop_of_not_admits (standard : policy.Standard)
    (refused : ¬policy.Admits scope rule) (index : Nat) :
    ∃ why : Diagnostic, policy.checkIn scope index rule = .drop why [] ∧
      why.severity = .error ∧ why.location = .rule index := by
  cases rule with
  | style r =>
      rw [checkIn_style, check_style, if_neg (mt admits_style.mpr refused)]
      exact ⟨_, rfl, rfl, rfl⟩
  | «at» r =>
      cases scope with
      | frames frames => exact ⟨_, rfl, rfl, rfl⟩
      | sheet =>
          rw [checkIn, checkRule]
          cases found : policy.atRules.get? r.name with
          | none => exact ⟨_, rfl, rfl, rfl⟩
          | some known =>
              have known_standard := standard r.name known found
              cases fault : known.preludeFault? r.prelude with
              | some why =>
                  simp only [fault]
                  exact ⟨_, rfl, rfl, rfl⟩
              | none =>
                  have prelude := (AtRulePolicy.preludeFits_iff known_standard r.prelude).mpr fault
                  have misfit := fun block => refused ⟨known, found, prelude, block⟩
                  obtain ⟨why, dropped⟩ :=
                    exists_drop_of_misfit policy known_standard misfit index
                  simp only [fault, dropped]
                  exact ⟨_, rfl, rfl, rfl⟩

theorem kept_checkIn_of_not_admits (standard : policy.Standard)
    (refused : ¬policy.Admits scope rule) (index : Nat) :
    (policy.checkIn scope index rule).kept = none := by
  obtain ⟨why, dropped, -⟩ := exists_drop_of_not_admits standard refused index
  rw [dropped, Checked.kept_drop]

/-! ## What is kept -/

/-- What is kept of a rule. -/
def keep (policy : Policy) (scope : Scope) (rule : Rule) : Option Rule :=
  (policy.checkIn scope 0 rule).kept

/-- What is kept of the rules that stand together. -/
def survivors (policy : Policy) (scope : Scope) (rules : List Rule) : List Rule :=
  rules.filterMap (policy.keep scope)

/-- All that can become of a rule. -/
inductive Fate (policy : Policy) (scope : Scope) (rule : Rule) : Option Rule → Prop where
  | dropped (refused : ¬policy.Admits scope rule) : Fate policy scope rule none
  | declarations {own : DeclarationPolicy} {ds : List Declaration}
      (admitted : policy.Admits scope rule)
      (held : policy.contents? scope rule = some (.declarations own ds)) :
      Fate policy scope rule (some (rule.withDeclarations (own.survivors ds)))
  | rules {inner : Scope} {rules : List Rule}
      (admitted : policy.Admits scope rule)
      (held : policy.contents? scope rule = some (.rules inner rules)) :
      Fate policy scope rule (some (rule.withRules (policy.survivors inner rules)))

theorem kept_checkIn (standard : policy.Standard) :
    ∀ scope rule index, (policy.checkIn scope index rule).kept = policy.keep scope rule := by
  intro scope rule index
  rcases policy.refused_or_opened scope rule with
    refused | ⟨own, ds, admitted, opened⟩ | ⟨inner, rules, admitted, opened⟩
  · rw [keep, kept_checkIn_of_not_admits standard refused,
      kept_checkIn_of_not_admits standard refused]
  · rw [keep, checkIn_of_declarations admitted opened, checkIn_of_declarations admitted opened]
    rfl
  · rw [keep, checkIn_of_rules admitted opened, checkIn_of_rules admitted opened]
    rfl

theorem kept_checkAllIn (standard : policy.Standard) (scope : Scope) (rules : List Rule) :
    (policy.checkAllIn scope rules).kept = policy.survivors scope rules :=
  Checked.kept_each (fun index rule => kept_checkIn standard scope rule index) 0 rules

theorem keep_of_declarations {own : DeclarationPolicy} {ds : List Declaration}
    (admitted : policy.Admits scope rule)
    (held : policy.contents? scope rule = some (.declarations own ds)) :
    policy.keep scope rule = some (rule.withDeclarations (own.survivors ds)) := by
  rw [keep, checkIn_of_declarations admitted held, Checked.kept_inside,
    DeclarationPolicy.kept_checkAll]

theorem keep_of_rules (standard : policy.Standard) {inner : Scope} {rules : List Rule}
    (admitted : policy.Admits scope rule)
    (held : policy.contents? scope rule = some (.rules inner rules)) :
    policy.keep scope rule = some (rule.withRules (policy.survivors inner rules)) := by
  rw [keep, checkIn_of_rules admitted held, Checked.kept_inside, kept_checkAllIn standard]

theorem fate_keep (standard : policy.Standard) (scope : Scope) (rule : Rule) :
    Fate policy scope rule (policy.keep scope rule) := by
  rcases policy.refused_or_opened scope rule with
    refused | ⟨own, ds, admitted, opened⟩ | ⟨inner, rules, admitted, opened⟩
  · rw [keep, kept_checkIn_of_not_admits standard refused]
    exact .dropped refused
  · rw [keep_of_declarations admitted opened]
    exact .declarations admitted opened
  · rw [keep_of_rules standard admitted opened]
    exact .rules admitted opened

theorem rules_sanitize (standard : policy.Standard) (s : Sheet) :
    (policy.sanitize s).sheet.rules = policy.survivors .sheet s.rules := by
  rw [← kept_checkAllIn standard, checkAllIn, ← checkFrom_eq_each]
  rfl

/-! ## Rebuilt rules

A rebuilt rule is admitted like the one it comes from, and holds what it was rebuilt around. -/

theorem admits_withDeclarations {own : DeclarationPolicy} {ds : List Declaration}
    (admitted : policy.Admits scope rule)
    (held : policy.contents? scope rule = some (.declarations own ds))
    (others : List Declaration) :
    policy.Admits scope (rule.withDeclarations others) ∧
      policy.contents? scope (rule.withDeclarations others) =
        some (.declarations own others) := by
  cases rule with
  | style r =>
      simp only [contents?, Option.some.injEq, Contents.declarations.injEq] at held
      obtain ⟨rfl, -⟩ := held
      refine ⟨admits_style.mpr (admits_style.mp admitted), ?_⟩
      rw [Rule.withDeclarations, contents?]
  | «at» r =>
      obtain ⟨-, known, found, held⟩ := known_of_contents? held
      exact admitted.withBlock found (AtRulePolicy.contents?_declarations held others)

theorem admits_withRules {inner : Scope} {rules : List Rule}
    (admitted : policy.Admits scope rule)
    (held : policy.contents? scope rule = some (.rules inner rules)) (others : List Rule) :
    policy.Admits scope (rule.withRules others) ∧
      policy.contents? scope (rule.withRules others) = some (.rules inner others) := by
  cases rule with
  | style r => simp [contents?] at held
  | «at» r =>
      obtain ⟨-, known, found, held⟩ := known_of_contents? held
      exact admitted.withBlock found (AtRulePolicy.contents?_rules held others)

end Policy

end CssSieve
