import CssSieve.Proofs.Limits.Allowing

/-!
# What the check reports

A sheet written as the list of its measures, in document order, is held against limits without
going into it again: it is admitted if no measure is too large and the rules are not too many. The
check admits what its measures admit, and what it reports otherwise is the last measure of the
shortest front that is not admitted (`check_exact`).
-/

namespace CssSieve

/-! ## Measures in document order -/

/-- One thing in a sheet that a limit is about. -/
inductive Measure where
  | rule
  /-- The number of values in a declaration. -/
  | length (property : String) (length : Nat)
  /-- How deeply functions and blocks nest in a list of values, or how deeply a list of rules is
  nested. -/
  | depth (depth : Nat)
deriving DecidableEq

def Declaration.measures (d : Declaration) : List Measure :=
  [.length d.name d.value.length, .depth (Value.depthAll d.value)]

mutual

/-- The measures of a block in a list that nests to a depth. A list of rules comes before the rules
in it. -/
def AtBlock.measures (depth : Nat) : AtBlock → List Measure
  | .absent => []
  | .raw vs => [.depth (Value.depthAll vs)]
  | .declarations ds => ds.flatMap Declaration.measures
  | .rules rules => .depth (depth + 1) :: Rule.measuresAll (depth + 1) rules

def AtRule.measures (depth : Nat) : AtRule → List Measure
  | ⟨_, prelude, block⟩ => .depth (Value.depthAll prelude) :: block.measures depth

/-- The measures of what is in a rule, its prelude first. -/
def Rule.measures (depth : Nat) : Rule → List Measure
  | .style r => .depth (Value.depthAll r.prelude) :: r.declarations.flatMap Declaration.measures
  | .at r => r.measures depth

/-- The measures of the rules in a list, each before what is in it. -/
def Rule.measuresAll (depth : Nat) : List Rule → List Measure
  | [] => []
  | r :: rs => .rule :: r.measures depth ++ Rule.measuresAll depth rs

end

def Sheet.measures (s : Sheet) : List Measure := .depth 0 :: Rule.measuresAll 0 s.rules

namespace Limits

variable {l : Limits}

/-- The measure by itself is not too large. -/
def Bounds (l : Limits) : Measure → Prop
  | .rule => True
  | .length _ n => n ≤ l.maxValueLength
  | .depth n => n ≤ l.maxDepth

/-- What the measures belong to is within the limits. -/
structure Admits (l : Limits) (ms : List Measure) : Prop where
  rules : ms.count .rule ≤ l.maxRules
  each : ∀ m ∈ ms, l.Bounds m

/-- What is reported of the first measure that a limit does not admit. -/
def reported (l : Limits) : Measure → LimitError
  | .rule => .tooManyRules (l.maxRules + 1) l.maxRules
  | .length property n => .valueTooLong property n l.maxValueLength
  | .depth n => .tooDeep n l.maxDepth

theorem admits_nil : l.Admits [] := ⟨Nat.zero_le _, by simp⟩

theorem Admits.front {before after : List Measure} (h : l.Admits (before ++ after)) :
    l.Admits before := by
  have fewer : before.count .rule ≤ (before ++ after).count .rule :=
    (List.sublist_append_left before after).count_le _
  exact ⟨Nat.le_trans fewer h.rules, fun m hm => h.each m (List.mem_append_left _ hm)⟩

/-! ## The check as a check of measures -/

/-- Checks one measure, given how many rules there were before. -/
def checkMeasure (l : Limits) (count : Nat) : Measure → Except LimitError Nat
  | .rule => l.countRule count
  | .length property n =>
    if l.maxValueLength < n then .error (.valueTooLong property n l.maxValueLength) else .ok count
  | .depth n => do
    l.checkDepth n
    return count

/-- Checks measures one after the other. -/
def checkMeasures (l : Limits) (count : Nat) : List Measure → Except LimitError Nat
  | [] => .ok count
  | m :: ms => do
    let count ← l.checkMeasure count m
    l.checkMeasures count ms

theorem checkMeasures_append (count : Nat) (ms ns : List Measure) :
    l.checkMeasures count (ms ++ ns) =
      l.checkMeasures count ms >>= fun count => l.checkMeasures count ns := by
  induction ms generalizing count with
  | nil => rfl
  | cons m ms ih =>
      rw [List.cons_append, checkMeasures, checkMeasures, bind_assoc]
      exact congrArg _ (funext ih)

theorem checkMeasures_depth (count n : Nat) (ms : List Measure) :
    l.checkMeasures count (.depth n :: ms) =
      l.checkDepth n >>= fun _ => l.checkMeasures count ms := by
  rw [checkMeasures, checkMeasure, bind_assoc]
  rfl

theorem checkMeasures_declaration (count : Nat) (d : Declaration) :
    l.checkMeasures count d.measures = l.checkDeclaration d >>= fun _ => .ok count := by
  rw [checkDeclaration, Declaration.measures, checkMeasures, checkMeasure]
  by_cases exceeded : l.maxValueLength < d.value.length
  · rw [if_pos exceeded, if_pos exceeded]
    rfl
  · rw [if_neg exceeded, if_neg exceeded]
    exact checkMeasures_depth count _ []

theorem checkMeasures_declarations (count : Nat) (ds : List Declaration) :
    l.checkMeasures count (ds.flatMap Declaration.measures) =
      l.checkDeclarations ds >>= fun _ => .ok count := by
  induction ds with
  | nil => rfl
  | cons d ds ih =>
      rw [List.flatMap_cons, checkMeasures_append, checkMeasures_declaration, checkDeclarations,
        bind_assoc, bind_assoc]
      exact congrArg (l.checkDeclaration d >>= ·) (funext fun _ => ih)

mutual

theorem checkBlock_eq (depth count : Nat) :
    (block : AtBlock) →
      l.checkBlock depth count block = l.checkMeasures count (block.measures depth)
  | .absent => rfl
  | .raw vs => by
      rw [checkBlock, AtBlock.measures, checkMeasures_depth]
      rfl
  | .declarations ds => by
      rw [checkBlock, AtBlock.measures, checkMeasures_declarations]
      rfl
  | .rules rules => by
      rw [checkBlock, AtBlock.measures, checkMeasures_depth, checkRules_eq]

theorem checkAtRule_eq (depth count : Nat) :
    (r : AtRule) → l.checkAtRule depth count r = l.checkMeasures count (r.measures depth)
  | ⟨name, prelude, block⟩ => by
      rw [checkAtRule, AtRule.measures, checkMeasures_depth, checkBlock_eq]
      rfl

theorem checkRule_eq (depth count : Nat) :
    (r : Rule) → l.checkRule depth count r = l.checkMeasures count (r.measures depth)
  | .style r => by
      rw [checkRule, Rule.measures, checkMeasures_depth, checkMeasures_declarations]
      rfl
  | .at r => by rw [checkRule, Rule.measures, checkAtRule_eq]

theorem checkRules_eq (depth count : Nat) :
    (rules : List Rule) →
      l.checkRules depth count rules = l.checkMeasures count (Rule.measuresAll depth rules)
  | [] => rfl
  | r :: rs => by
      rw [checkRules, Rule.measuresAll, List.cons_append, checkMeasures]
      apply congrArg (l.countRule count >>= ·)
      funext count
      rw [checkMeasures_append, checkRule_eq]
      exact congrArg _ (funext fun count => checkRules_eq depth count rs)

end

theorem check_eq (s : Sheet) : l.check s = discard (l.checkMeasures 0 s.measures) := by
  have top : l.checkDepth 0 = .ok () := checkDepth_eq_ok.mpr (Nat.zero_le _)
  rw [check, Sheet.measures, checkMeasures_depth, checkRules_eq, top]
  rfl

/-! ## The first measure that is not admitted -/

variable {before ms : List Measure} {m : Measure} {e : LimitError}

/-- Behind measures that are admitted, only a rule too many or a measure too large is not. -/
theorem Admits.concat_iff (h : l.Admits before) :
    l.Admits (before ++ [m]) ↔
      l.Bounds m ∧ (m = .rule → before.count .rule + 1 ≤ l.maxRules) := by
  have counted : (before ++ [m]).count .rule = before.count .rule + if m = .rule then 1 else 0 := by
    simp [List.count_append, List.count_singleton]
  constructor
  · intro both
    refine ⟨both.each m (by simp), ?_⟩
    rintro rfl
    simpa [counted] using both.rules
  · rintro ⟨bounded, room⟩
    refine ⟨?_, ?_⟩
    · rw [counted]
      split
      next one_more => exact room one_more
      next => exact h.rules
    · intro m' hm'
      rcases List.mem_append.mp hm' with hm' | hm'
      · exact h.each m' hm'
      · rwa [List.mem_singleton.mp hm']

/-- While measures are admitted, the check counts the rules among them. -/
theorem checkMeasure_of_admits (h : l.Admits (before ++ [m])) :
    l.checkMeasure (before.count .rule) m = .ok ((before ++ [m]).count .rule) := by
  obtain ⟨bounded, room⟩ := h.front.concat_iff.mp h
  cases m with
  | rule =>
      rw [checkMeasure, countRule_eq_ok, List.count_append]
      exact ⟨rfl, room rfl⟩
  | length property n =>
      rw [checkMeasure, if_neg (Nat.not_lt.mpr bounded), List.count_append]
      rfl
  | depth n =>
      rw [checkMeasure, checkDepth_eq_ok.mpr bounded, List.count_append]
      rfl

theorem checkMeasure_of_not_admits (h : l.Admits before) (exceeded : ¬l.Admits (before ++ [m])) :
    l.checkMeasure (before.count .rule) m = .error (l.reported m) := by
  rw [h.concat_iff] at exceeded
  cases m with
  | rule =>
      have full : ¬before.count .rule + 1 ≤ l.maxRules :=
        fun room => exceeded ⟨trivial, fun _ => room⟩
      have count : before.count .rule = l.maxRules := Nat.le_antisymm h.rules (by omega)
      rw [checkMeasure, countRule, count, if_pos (Nat.lt_succ_self _)]
      rfl
  | length property n =>
      have long : ¬n ≤ l.maxValueLength := fun fits => exceeded ⟨fits, by simp⟩
      rw [checkMeasure, if_pos (Nat.not_le.mp long)]
      rfl
  | depth n =>
      have deep : ¬n ≤ l.maxDepth := fun shallow => exceeded ⟨shallow, by simp⟩
      rw [checkMeasure, checkDepth, if_pos (Nat.not_le.mp deep)]
      rfl

/-- A place in a list is its head, or a place behind the head. -/
theorem exists_place_cons_iff {α : Type} {P : List α → α → Prop} {a : α} {as : List α} :
    (∃ front b rest, a :: as = front ++ b :: rest ∧ P front b) ↔
      P [] a ∨ ∃ front b rest, as = front ++ b :: rest ∧ P (a :: front) b := by
  constructor
  · rintro ⟨front, b, rest, parts, holds⟩
    cases front with
    | nil =>
        cases parts
        exact Or.inl holds
    | cons a' front =>
        cases parts
        exact Or.inr ⟨front, b, rest, rfl, holds⟩
  · rintro (holds | ⟨front, b, rest, rfl, holds⟩)
    · exact ⟨[], a, as, rfl, holds⟩
    · exact ⟨a :: front, b, rest, rfl, holds⟩

/-- The check of further measures fails at the first that is not admitted. -/
theorem checkMeasures_eq_error (h : l.Admits before) :
    l.checkMeasures (before.count .rule) ms = .error e ↔
      ∃ front m rest, ms = front ++ m :: rest ∧ l.Admits (before ++ front) ∧
        ¬l.Admits (before ++ front ++ [m]) ∧ e = l.reported m := by
  -- what stands in front is general, since each measure that is admitted joins it
  induction ms generalizing before with
  | nil => simp [checkMeasures]
  | cons m ms ih =>
      rw [checkMeasures]
      refine Iff.trans ?_ exists_place_cons_iff.symm
      by_cases admitted : l.Admits (before ++ [m])
      · rw [checkMeasure_of_admits admitted]
        refine (ih admitted).trans ?_
        simp [admitted]
      · rw [checkMeasure_of_not_admits h admitted]
        have none_behind (front : List Measure) : ¬l.Admits (before ++ m :: front) := by
          intro clear
          have front_clear : l.Admits (before ++ [m] ++ front) := by simpa using clear
          exact admitted front_clear.front
        show Except.error (l.reported m) = Except.error e ↔ _
        simp [h, admitted, none_behind, eq_comm]

/-- What the check of a sheet reports is the last measure of the shortest front that is not
admitted. -/
theorem check_eq_error {s : Sheet} :
    l.check s = .error e ↔ ∃ front m rest, s.measures = front ++ m :: rest ∧ l.Admits front ∧
      ¬l.Admits (front ++ [m]) ∧ e = l.reported m := by
  have discarded (x : Except LimitError Nat) : discard x = .error e ↔ x = .error e := by
    cases x with
    | ok n => exact iff_of_false nofun nofun
    | error e' =>
        show Except.error e' = Except.error e ↔ Except.error e' = Except.error e
        rw [Except.error.injEq, Except.error.injEq]
  rw [check_eq, discarded]
  exact checkMeasures_eq_error (admits_nil : l.Admits [])

end Limits

/-! ## What a sheet holds -/

namespace Sheet

/-- A list of rules stands in the sheet, nested to a depth. -/
inductive HasRules (s : Sheet) : Nat → List Rule → Prop where
  | top : HasRules s 0 s.rules
  | inside {depth : Nat} {rules inner : List Rule} {name : String} {prelude : List Value}
      (around : HasRules s depth rules) (listed : .at ⟨name, prelude, .rules inner⟩ ∈ rules) :
      HasRules s (depth + 1) inner

/-- The rule stands in one of these lists. -/
def HasRule (s : Sheet) (r : Rule) : Prop := ∃ depth rules, s.HasRules depth rules ∧ r ∈ rules

/-- A declaration that has been read: of a style rule, or of the block of an at-rule. -/
inductive HasDeclaration (s : Sheet) (d : Declaration) : Prop where
  | style {r : StyleRule} (rule : s.HasRule (.style r)) (listed : d ∈ r.declarations)
  | block {name : String} {prelude : List Value} {ds : List Declaration}
      (rule : s.HasRule (.at ⟨name, prelude, .declarations ds⟩)) (listed : d ∈ ds)

/-- A list of values: a prelude, the value of a declaration, or a block that has not been read. -/
inductive HasValues (s : Sheet) : List Value → Prop where
  | stylePrelude {r : StyleRule} (rule : s.HasRule (.style r)) : HasValues s r.prelude
  | atPrelude {name : String} {prelude : List Value} {block : AtBlock}
      (rule : s.HasRule (.at ⟨name, prelude, block⟩)) : HasValues s prelude
  | declared {d : Declaration} (declaration : s.HasDeclaration d) : HasValues s d.value
  | unread {name : String} {prelude vs : List Value}
      (rule : s.HasRule (.at ⟨name, prelude, .raw vs⟩)) : HasValues s vs

end Sheet

namespace Limits

variable {l : Limits} {s : Sheet}

theorem allowsRules_iff {depth : Nat} {rules : List Rule} :
    l.AllowsRules depth rules ↔ ∀ r ∈ rules, l.AllowsRule depth r := by
  induction rules with
  | nil => simp [AllowsRules]
  | cons r rs ih => rw [AllowsRules, ih, List.forall_mem_cons]

theorem allowsRules_of_hasRules (allowed : l.AllowsRules 0 s.rules) {depth : Nat}
    {rules : List Rule} (held : s.HasRules depth rules) :
    depth ≤ l.maxDepth ∧ l.AllowsRules depth rules := by
  induction held with
  | top => exact ⟨Nat.zero_le _, allowed⟩
  | inside _ listed ih =>
      have block_allowed := (allowsRules_iff.mp ih.2 _ listed).2
      exact block_allowed

/-- What a sheet holds is within the limits, apart from the number of rules. -/
structure AllowsParts (l : Limits) (s : Sheet) : Prop where
  rules : ∀ depth rules, s.HasRules depth rules → depth ≤ l.maxDepth
  declarations : ∀ d, s.HasDeclaration d → d.value.length ≤ l.maxValueLength
  values : ∀ vs, s.HasValues vs → ∀ v ∈ vs, v.depth ≤ l.maxDepth

namespace AllowsParts

theorem allowsValues (h : l.AllowsParts s) {vs : List Value} (held : s.HasValues vs) :
    l.AllowsValues vs :=
  Value.depthAll_le_iff.mpr (h.values vs held)

theorem allowsDeclaration (h : l.AllowsParts s) {d : Declaration} (held : s.HasDeclaration d) :
    l.AllowsDeclaration d :=
  ⟨h.declarations d held, h.allowsValues (.declared held)⟩

mutual

theorem allowsBlock (h : l.AllowsParts s) {depth : Nat} {all : List Rule}
    (held : s.HasRules depth all) {name : String} {prelude : List Value} :
    (block : AtBlock) → .at ⟨name, prelude, block⟩ ∈ all → l.AllowsBlock depth block
  | .absent, _ => by
      rw [AllowsBlock]
      trivial
  | .raw _, listed => h.allowsValues (.unread ⟨_, _, held, listed⟩)
  | .declarations _, listed =>
      fun _ hd => h.allowsDeclaration (.block ⟨_, _, held, listed⟩ hd)
  | .rules rules, listed =>
      have inner := held.inside listed
      ⟨h.rules _ _ inner, h.allowsRules inner rules fun _ hr => hr⟩

theorem allowsRule (h : l.AllowsParts s) {depth : Nat} {all : List Rule}
    (held : s.HasRules depth all) : (r : Rule) → r ∈ all → l.AllowsRule depth r
  | .style r, listed =>
      have rule : s.HasRule (.style r) := ⟨_, _, held, listed⟩
      ⟨h.allowsValues (.stylePrelude rule), fun _ hd => h.allowsDeclaration (.style rule hd)⟩
  | .at ⟨name, prelude, block⟩, listed =>
      have rule : s.HasRule (.at ⟨name, prelude, block⟩) := ⟨_, _, held, listed⟩
      ⟨h.allowsValues (.atPrelude rule), h.allowsBlock held block listed⟩

theorem allowsRules (h : l.AllowsParts s) {depth : Nat} {all : List Rule}
    (held : s.HasRules depth all) :
    (rules : List Rule) → (∀ r ∈ rules, r ∈ all) → l.AllowsRules depth rules
  | [], _ => by
      rw [AllowsRules]
      trivial
  | r :: rs, listed =>
      have ⟨first, others⟩ := List.forall_mem_cons.mp listed
      ⟨h.allowsRule held r first, h.allowsRules held rs others⟩

end

end AllowsParts

/-- What the check goes through is what the sheet holds. -/
theorem allowsRules_iff_parts : l.AllowsRules 0 s.rules ↔ l.AllowsParts s := by
  constructor
  · intro allowed
    have rule {r : Rule} (held : s.HasRule r) : ∃ depth, l.AllowsRule depth r := by
      obtain ⟨depth, rules, held, listed⟩ := held
      exact ⟨depth, allowsRules_iff.mp (allowsRules_of_hasRules allowed held).2 r listed⟩
    have declaration {d : Declaration} (held : s.HasDeclaration d) : l.AllowsDeclaration d := by
      cases held with
      | style held listed | block held listed =>
          obtain ⟨depth, rule_allowed⟩ := rule held
          exact rule_allowed.2 d listed
    have values {vs : List Value} (held : s.HasValues vs) : l.AllowsValues vs := by
      cases held with
      | stylePrelude held | atPrelude held =>
          obtain ⟨depth, rule_allowed⟩ := rule held
          exact rule_allowed.1
      | declared held => exact (declaration held).2
      | unread held =>
          obtain ⟨depth, rule_allowed⟩ := rule held
          exact rule_allowed.2
    exact ⟨fun _ _ held => (allowsRules_of_hasRules allowed held).1,
      fun _ held => (declaration held).1, fun _ held => Value.depthAll_le_iff.mp (values held)⟩
  · intro parts
    exact parts.allowsRules .top s.rules fun _ listed => listed

/-- **The check is exact.** A sheet passes if its rules, nested ones included, are not too many, no
list of rules is nested too deeply, no declaration has too many values, and no value anywhere nests
too deeply. Otherwise what is reported is the first measure in document order that a limit does not
admit. -/
theorem check_exact (l : Limits) (s : Sheet) :
    (l.check s = .ok () ↔
      Rule.countAll s.rules ≤ l.maxRules ∧
        (∀ depth rules, s.HasRules depth rules → depth ≤ l.maxDepth) ∧
        (∀ d, s.HasDeclaration d → d.value.length ≤ l.maxValueLength) ∧
        ∀ vs, s.HasValues vs → ∀ v ∈ vs, v.depth ≤ l.maxDepth) ∧
      ∀ e, l.check s = .error e ↔
        ∃ front m rest, s.measures = front ++ m :: rest ∧ l.Admits front ∧
          ¬l.Admits (front ++ [m]) ∧ e = l.reported m := by
  refine ⟨?_, fun e => check_eq_error⟩
  rw [check_eq_ok, allowsRules_iff_parts]
  constructor
  · rintro ⟨parts, fewer⟩
    exact ⟨fewer, parts.rules, parts.declarations, parts.values⟩
  · rintro ⟨fewer, rules, declarations, values⟩
    exact ⟨⟨rules, declarations, values⟩, fewer⟩

/-- A rule too many is reported before the value in it that nests too deeply. -/
example : check { maxRules := 0, maxDepth := 0 } ⟨[.style ⟨[.block '[' []], []⟩]⟩ =
    .error (.tooManyRules 1 0) := rfl

end Limits

end CssSieve
