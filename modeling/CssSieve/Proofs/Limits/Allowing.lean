import CssSieve.Limits

/-!
# What the limits allow

The check goes through a sheet and carries the number of rules along. `check_eq_ok` says what it
comes to: what the rules hold is allowed where it stands, and the rules are not too many. The blocks
that are unread count as values, whatever rules or declarations they will be read as.
-/

namespace CssSieve

mutual

/-- The number of rules in a block, nested ones included. -/
def AtBlock.ruleCount : AtBlock → Nat
  | .rules rules => Rule.countAll rules
  | .absent | .raw _ | .declarations _ => 0

/-- The number of rules in an at-rule, itself not counted. -/
def AtRule.ruleCount : AtRule → Nat
  | ⟨_, _, block⟩ => block.ruleCount

/-- The number of rules that a rule makes, with itself. -/
def Rule.count : Rule → Nat
  | .style _ => 1
  | .at r => 1 + r.ruleCount

def Rule.countAll : List Rule → Nat
  | [] => 0
  | r :: rs => r.count + Rule.countAll rs

end

namespace Limits

def AllowsValues (l : Limits) (vs : List Value) : Prop := Value.depthAll vs ≤ l.maxDepth

def AllowsDeclaration (l : Limits) (d : Declaration) : Prop :=
  d.value.length ≤ l.maxValueLength ∧ l.AllowsValues d.value

mutual

/-- The block of an at-rule is allowed in a list that nests to a depth. -/
def AllowsBlock (l : Limits) (depth : Nat) : AtBlock → Prop
  | .absent => True
  | .raw vs => l.AllowsValues vs
  | .declarations ds => ∀ d ∈ ds, l.AllowsDeclaration d
  | .rules rules => depth + 1 ≤ l.maxDepth ∧ l.AllowsRules (depth + 1) rules

def AllowsAtRule (l : Limits) (depth : Nat) : AtRule → Prop
  | ⟨_, prelude, block⟩ => l.AllowsValues prelude ∧ l.AllowsBlock depth block

def AllowsRule (l : Limits) (depth : Nat) : Rule → Prop
  | .style r => l.AllowsValues r.prelude ∧ ∀ d ∈ r.declarations, l.AllowsDeclaration d
  | .at r => l.AllowsAtRule depth r

/-- The rules are allowed in a list that nests to a depth, apart from their number. -/
def AllowsRules (l : Limits) (depth : Nat) : List Rule → Prop
  | [] => True
  | r :: rs => l.AllowsRule depth r ∧ l.AllowsRules depth rs

end

variable {l : Limits}

theorem bind_eq_ok {ε α β : Type} {x : Except ε α} {f : α → Except ε β} {b : β} :
    x >>= f = .ok b ↔ ∃ a, x = .ok a ∧ f a = .ok b := by
  cases x <;> simp [bind, Except.bind]

/-- A check that gives nothing but its success. -/
theorem bind_unit_eq_ok {ε β : Type} {x : Except ε Unit} {f : Unit → Except ε β} {b : β} :
    x >>= f = .ok b ↔ x = .ok () ∧ f () = .ok b := by
  rw [bind_eq_ok]
  constructor
  · rintro ⟨⟨⟩, checked⟩
    exact checked
  · intro checked
    exact ⟨(), checked⟩

theorem pure_eq_ok {ε α : Type} {a b : α} : (pure a : Except ε α) = .ok b ↔ b = a := by
  simp [pure, Except.pure, eq_comm]

/-! ## What each check comes to -/

theorem checkDepth_eq_ok {depth : Nat} : l.checkDepth depth = .ok () ↔ depth ≤ l.maxDepth := by
  rw [checkDepth]
  split
  next exceeded => simpa using exceeded
  next allowed => simpa using allowed

theorem checkValues_eq_ok {vs : List Value} :
    l.checkValues vs = .ok () ↔ l.AllowsValues vs :=
  checkDepth_eq_ok

theorem checkDeclaration_eq_ok {d : Declaration} :
    l.checkDeclaration d = .ok () ↔ l.AllowsDeclaration d := by
  rw [checkDeclaration, AllowsDeclaration, ← checkValues_eq_ok]
  by_cases exceeded : l.maxValueLength < d.value.length
  · have too_long : ¬d.value.length ≤ l.maxValueLength := Nat.not_le.mpr exceeded
    simp [exceeded, too_long, throw, throwThe, MonadExceptOf.throw, bind, Except.bind]
  · have fits : d.value.length ≤ l.maxValueLength := Nat.not_lt.mp exceeded
    simp [exceeded, fits]

theorem checkDeclarations_eq_ok {ds : List Declaration} :
    l.checkDeclarations ds = .ok () ↔ ∀ d ∈ ds, l.AllowsDeclaration d := by
  induction ds with
  | nil => simp [checkDeclarations]
  | cons d ds ih =>
      rw [checkDeclarations, bind_unit_eq_ok, checkDeclaration_eq_ok, ih, List.forall_mem_cons]

theorem countRule_eq_ok {count n : Nat} :
    l.countRule count = .ok n ↔ n = count + 1 ∧ n ≤ l.maxRules := by
  rw [countRule]
  split
  next exceeded =>
    constructor
    · intro refused
      cases refused
    · rintro ⟨rfl, allowed⟩
      omega
  next allowed =>
    rw [Except.ok.injEq]
    omega

mutual

/-- While there have not been too many rules before, the check of a block counts those in it. -/
theorem checkBlock_eq_ok {depth count n : Nat} (room : count ≤ l.maxRules) :
    (block : AtBlock) → (l.checkBlock depth count block = .ok n ↔
      l.AllowsBlock depth block ∧ n = count + block.ruleCount ∧ n ≤ l.maxRules)
  | .absent => by
      rw [checkBlock, AllowsBlock, AtBlock.ruleCount, true_and, Except.ok.injEq]
      omega
  | .raw vs => by
      rw [checkBlock, bind_unit_eq_ok, checkValues_eq_ok, pure_eq_ok, AllowsBlock,
        AtBlock.ruleCount]
      apply and_congr_right
      omega
  | .declarations ds => by
      rw [checkBlock, bind_unit_eq_ok, checkDeclarations_eq_ok, pure_eq_ok, AllowsBlock,
        AtBlock.ruleCount]
      apply and_congr_right
      omega
  | .rules rules => by
      rw [checkBlock, bind_unit_eq_ok, checkDepth_eq_ok, checkRules_eq_ok room rules, AllowsBlock,
        AtBlock.ruleCount, and_assoc]

theorem checkAtRule_eq_ok {depth count n : Nat} (room : count ≤ l.maxRules) :
    (r : AtRule) → (l.checkAtRule depth count r = .ok n ↔
      l.AllowsAtRule depth r ∧ n = count + r.ruleCount ∧ n ≤ l.maxRules)
  | ⟨name, prelude, block⟩ => by
      rw [checkAtRule, bind_unit_eq_ok, checkValues_eq_ok, checkBlock_eq_ok room block,
        AllowsAtRule, AtRule.ruleCount, and_assoc]

/-- The rule itself has been counted before. -/
theorem checkRule_eq_ok {depth count n : Nat} (room : count ≤ l.maxRules) :
    (r : Rule) → (l.checkRule depth count r = .ok n ↔
      l.AllowsRule depth r ∧ n + 1 = count + r.count ∧ n ≤ l.maxRules)
  | .style r => by
      rw [checkRule, bind_unit_eq_ok, checkValues_eq_ok, bind_unit_eq_ok,
        checkDeclarations_eq_ok, pure_eq_ok, AllowsRule, Rule.count, ← and_assoc]
      apply and_congr_right
      omega
  | .at r => by
      rw [checkRule, checkAtRule_eq_ok room r, AllowsRule, Rule.count]
      apply and_congr_right
      omega

theorem checkRules_eq_ok {depth count n : Nat} (room : count ≤ l.maxRules) :
    (rules : List Rule) → (l.checkRules depth count rules = .ok n ↔
      l.AllowsRules depth rules ∧ n = count + Rule.countAll rules ∧ n ≤ l.maxRules)
  | [] => by
      rw [checkRules, AllowsRules, Rule.countAll, true_and, Except.ok.injEq]
      omega
  | r :: rs => by
      rw [checkRules, bind_eq_ok, AllowsRules, Rule.countAll]
      constructor
      · rintro ⟨counted, first, rest⟩
        obtain ⟨rfl, room⟩ := countRule_eq_ok.mp first
        obtain ⟨n', here, rest⟩ := bind_eq_ok.mp rest
        obtain ⟨allowed, counted, room'⟩ := (checkRule_eq_ok room r).mp here
        obtain ⟨allowed', total, fits⟩ := (checkRules_eq_ok room' rs).mp rest
        exact ⟨⟨allowed, allowed'⟩, by omega, fits⟩
      · rintro ⟨⟨allowed, allowed'⟩, total, fits⟩
        have positive : 1 ≤ r.count := by cases r <;> simp [Rule.count]
        have room : count + 1 ≤ l.maxRules := by omega
        have room' : count + r.count ≤ l.maxRules := by omega
        refine ⟨count + 1, countRule_eq_ok.mpr ⟨rfl, room⟩, bind_eq_ok.mpr ?_⟩
        refine ⟨count + r.count, (checkRule_eq_ok room r).mpr ⟨allowed, by omega, room'⟩, ?_⟩
        exact (checkRules_eq_ok room' rs).mpr ⟨allowed', by omega, fits⟩

end

/-- The check of a sheet comes to this: what its rules hold is allowed, and so is their number. -/
theorem check_eq_ok {s : Sheet} :
    l.check s = .ok () ↔ l.AllowsRules 0 s.rules ∧ Rule.countAll s.rules ≤ l.maxRules := by
  have top : l.checkDepth 0 = .ok () := checkDepth_eq_ok.mpr (Nat.zero_le _)
  have discarded (x : Except LimitError Nat) : discard x = .ok () ↔ ∃ n, x = .ok n := by
    cases x with
    | ok n => exact iff_of_true rfl ⟨n, rfl⟩
    | error e =>
        refine iff_of_false ?_ ?_
        · intro passed
          cases passed
        · rintro ⟨n, passed⟩
          cases passed
  rw [check, bind_unit_eq_ok, discarded]
  simp only [top, true_and, checkRules_eq_ok (Nat.zero_le l.maxRules), Nat.zero_add]
  constructor
  · rintro ⟨n, allowed, rfl, fits⟩
    exact ⟨allowed, fits⟩
  · rintro ⟨allowed, fits⟩
    exact ⟨_, allowed, rfl, fits⟩

end Limits

end CssSieve
