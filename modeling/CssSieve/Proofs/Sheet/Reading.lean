import CssSieve.Sheet.Nesting

/-!
# What readers give

Everything that a reader gives was collected from the values it was given: a declaration from the
values behind its colon, a rule from those of its prelude and from its block. `ReadFrom` says so
with a property of the values, and with what a reader makes sure of while it collects them: that
nothing ended the value or the prelude before, and what it started with.
-/

namespace CssSieve

/-! ## Declarations -/

namespace DeclarationReader

variable {P : Value → Prop} {name : String} {value : List Value}

/-- The value of a declaration as it is collected, last one first. -/
structure Collected (P : Value → Prop) (value : List Value) : Prop where
  each : ∀ v ∈ value, P v ∧ v ≠ .token .semicolon
  starts : ∀ v ∈ value.getLast?, v.isWhitespace = false

/-- The declaration was read from values with a property. -/
def ReadFrom (P : Value → Prop) (d : Declaration) : Prop :=
  ∃ name value, d = declare name value ∧ Collected P value

/-- What a reader has collected so far. -/
def Collects (P : Value → Prop) : DeclarationReader → Prop
  | inValue _ value => value ≠ [] ∧ Collected P value
  | between | afterName _ | afterColon _ | inAtRule | skipping => True

theorem Collected.nil : Collected P [] := ⟨by simp, by simp⟩

theorem Collected.cons {v : Value} (h : Collected P value) (hv : P v)
    (closed : v ≠ .token .semicolon) (first : value = [] → v.isWhitespace = false) :
    Collected P (v :: value) := by
  refine ⟨List.forall_mem_cons.mpr ⟨⟨hv, closed⟩, h.each⟩, ?_⟩
  cases value with
  | nil => simpa using first rfl
  | cons u us =>
      rw [List.getLast?_cons_cons]
      exact h.starts

theorem stepBetween_eq_none (v : Value) : (stepBetween v).2 = none := by
  unfold stepBetween
  split <;> rfl

theorem stepAfterName_eq_none (name : String) (v : Value) : (stepAfterName name v).2 = none := by
  unfold stepAfterName
  split <;> rfl

theorem stepInAtRule_eq_none (v : Value) : (stepInAtRule v).2 = none := by
  unfold stepInAtRule
  split <;> rfl

theorem stepSkipping_eq_none (v : Value) : (stepSkipping v).2 = none := by
  unfold stepSkipping
  split <;> rfl

theorem collects_stepInValue {v : Value} (h : Collected P value) (hv : P v)
    (first : value = [] → v.isWhitespace = false) :
    (stepInValue name value v).1.Collects P ∧ ∀ d ∈ (stepInValue name value v).2, ReadFrom P d := by
  unfold stepInValue
  split
  next =>
    refine ⟨trivial, fun d hd => ?_⟩
    cases hd
    exact ⟨name, value, rfl, h⟩
  next closed => exact ⟨⟨List.cons_ne_nil _ _, h.cons hv closed first⟩, by simp⟩

theorem collects_stepAfterColon {v : Value} (hv : P v) :
    (stepAfterColon name v).1.Collects P ∧ ∀ d ∈ (stepAfterColon name v).2, ReadFrom P d := by
  unfold stepAfterColon
  split
  next => exact ⟨trivial, by simp⟩
  next dark =>
    have first : v.isWhitespace = false := by
      unfold Value.isWhitespace
      split
      next => exact absurd rfl dark
      next => rfl
    exact collects_stepInValue Collected.nil hv fun _ => first

theorem collects_step {r : DeclarationReader} {v : Value} (h : r.Collects P) (hv : P v) :
    (r.step v).1.Collects P ∧ ∀ d ∈ (r.step v).2, ReadFrom P d := by
  cases r with
  | between =>
      show (stepBetween v).1.Collects P ∧ _
      refine ⟨?_, by simp [step, stepBetween_eq_none]⟩
      unfold stepBetween
      split <;> trivial
  | afterName name =>
      show (stepAfterName name v).1.Collects P ∧ _
      refine ⟨?_, by simp [step, stepAfterName_eq_none]⟩
      unfold stepAfterName
      split <;> trivial
  | inAtRule =>
      show (stepInAtRule v).1.Collects P ∧ _
      refine ⟨?_, by simp [step, stepInAtRule_eq_none]⟩
      unfold stepInAtRule
      split <;> trivial
  | skipping =>
      show (stepSkipping v).1.Collects P ∧ _
      refine ⟨?_, by simp [step, stepSkipping_eq_none]⟩
      unfold stepSkipping
      split <;> trivial
  | afterColon name => exact collects_stepAfterColon hv
  | inValue name value => exact collects_stepInValue h.2 hv fun none => absurd none h.1

theorem readFrom_of_mem_finish {r : DeclarationReader} (h : r.Collects P) :
    ∀ d ∈ r.finish, ReadFrom P d := by
  intro d hd
  cases r with
  | afterColon name =>
      cases hd
      exact ⟨name, [], rfl, Collected.nil⟩
  | inValue name value =>
      cases hd
      exact ⟨name, value, rfl, h.2⟩
  | between | afterName | inAtRule | skipping => cases hd

theorem readFrom_of_mem_run {r : DeclarationReader} (h : r.Collects P) {vs : List Value}
    (each : ∀ v ∈ vs, P v) : ∀ d ∈ r.run vs, ReadFrom P d := by
  induction vs generalizing r with
  | nil =>
      intro d hd
      exact readFrom_of_mem_finish h d (Option.mem_toList.mp hd)
  | cons v vs ih =>
      obtain ⟨hv, hvs⟩ := List.forall_mem_cons.mp each
      obtain ⟨kept, completed⟩ := collects_step h hv
      intro d hd
      rcases List.mem_append.mp hd with hd | hd
      · exact completed d (Option.mem_toList.mp hd)
      · exact ih kept hvs d hd

end DeclarationReader

theorem Declaration.readFrom_of_mem_listOfValues {P : Value → Prop} {vs : List Value}
    (each : ∀ v ∈ vs, P v) : ∀ d ∈ listOfValues vs, DeclarationReader.ReadFrom P d := by
  have start : DeclarationReader.between.Collects P := trivial
  exact DeclarationReader.readFrom_of_mem_run start each

/-! ## Rules -/

/-- Whether the value is a block in braces. -/
def Value.isBraces : Value → Bool
  | .block '\x7b' _ => true
  | _ => false

theorem Value.isBraces_eq_false {v : Value} (h : ∀ vs, v ≠ .block '\x7b' vs) :
    v.isBraces = false := by
  unfold isBraces
  split
  next vs => exact absurd rfl (h vs)
  next => rfl

/-- Whether a style rule starts where the value stands between rules. -/
def Value.startsStyleRule (topLevel : Bool) : Value → Bool
  | .token .whitespace | .token (.atKeyword _) => false
  | .token .cdo | .token .cdc => !topLevel
  | _ => true

namespace RuleReader

variable {P : Value → Prop} {topLevel : Bool} {prelude : List Value}

/-- The prelude of a style rule as it is collected, last value first. -/
structure StylePrelude (topLevel : Bool) (P : Value → Prop) (prelude : List Value) : Prop where
  each : ∀ v ∈ prelude, P v ∧ v.isBraces = false
  starts : ∀ v ∈ prelude.getLast?, v.startsStyleRule topLevel = true

/-- The prelude of an at-rule as it is collected, last value first. -/
def AtPrelude (P : Value → Prop) (prelude : List Value) : Prop :=
  ∀ v ∈ prelude, P v ∧ v.isBraces = false ∧ v ≠ .token .semicolon

/-- The rule was read from values with a property. -/
inductive ReadFrom (topLevel : Bool) (P : Value → Prop) : Rule → Prop where
  | style {prelude contents : List Value} (collected : StylePrelude topLevel P prelude)
      (block : P (.block '\x7b' contents)) : ReadFrom topLevel P (styleRule prelude contents)
  | atAbsent {name : String} {prelude : List Value} (collected : AtPrelude P prelude) :
      ReadFrom topLevel P (atRule name prelude .absent)
  | atBlock {name : String} {prelude contents : List Value} (collected : AtPrelude P prelude)
      (block : P (.block '\x7b' contents)) :
      ReadFrom topLevel P (atRule name prelude (.raw contents))

/-- What a reader has collected so far. -/
def Collects (topLevel : Bool) (P : Value → Prop) : RuleReader → Prop
  | between => True
  | inAtRule _ prelude => AtPrelude P prelude
  | inStyleRule prelude => prelude ≠ [] ∧ StylePrelude topLevel P prelude

theorem StylePrelude.nil : StylePrelude topLevel P [] := ⟨by simp, by simp⟩

theorem StylePrelude.cons {v : Value} (h : StylePrelude topLevel P prelude) (hv : P v)
    (unbraced : v.isBraces = false) (first : prelude = [] → v.startsStyleRule topLevel = true) :
    StylePrelude topLevel P (v :: prelude) := by
  refine ⟨List.forall_mem_cons.mpr ⟨⟨hv, unbraced⟩, h.each⟩, ?_⟩
  cases prelude with
  | nil => simpa using first rfl
  | cons u us =>
      rw [List.getLast?_cons_cons]
      exact h.starts

theorem stepInStyleRule_of_unbraced {v : Value} (h : v.isBraces = false) (prelude : List Value) :
    stepInStyleRule prelude v = (inStyleRule (v :: prelude), none) := by
  unfold stepInStyleRule
  split
  next => cases h
  next => rfl

theorem stepInAtRule_of_open {v : Value} (unbraced : v.isBraces = false)
    (closed : v ≠ .token .semicolon) (name : String) (prelude : List Value) :
    stepInAtRule name prelude v = (inAtRule name (v :: prelude), none) := by
  unfold stepInAtRule
  split
  next => exact absurd rfl closed
  next => cases unbraced
  next => rfl

theorem collects_stepInStyleRule {v : Value} (h : StylePrelude topLevel P prelude) (hv : P v)
    (first : prelude = [] → v.startsStyleRule topLevel = true) :
    (stepInStyleRule prelude v).1.Collects topLevel P ∧
      ∀ r ∈ (stepInStyleRule prelude v).2, ReadFrom topLevel P r := by
  unfold stepInStyleRule
  split
  next contents =>
    refine ⟨trivial, fun r hr => ?_⟩
    cases hr
    exact .style h hv
  next other =>
    have unbraced := Value.isBraces_eq_false other
    exact ⟨⟨List.cons_ne_nil _ _, h.cons hv unbraced first⟩, by simp⟩

theorem collects_stepInAtRule {name : String} {v : Value} (h : AtPrelude P prelude) (hv : P v) :
    (stepInAtRule name prelude v).1.Collects topLevel P ∧
      ∀ r ∈ (stepInAtRule name prelude v).2, ReadFrom topLevel P r := by
  unfold stepInAtRule
  split
  next =>
    refine ⟨trivial, fun r hr => ?_⟩
    cases hr
    exact .atAbsent h
  next contents =>
    refine ⟨trivial, fun r hr => ?_⟩
    cases hr
    exact .atBlock h hv
  next closed other =>
    have unbraced := Value.isBraces_eq_false other
    exact ⟨List.forall_mem_cons.mpr ⟨⟨hv, unbraced, closed⟩, h⟩, by simp⟩

theorem stepBetween_of_starts {v : Value} (h : v.startsStyleRule topLevel = true) :
    stepBetween topLevel v = stepInStyleRule [] v := by
  unfold stepBetween
  split
  next => cases h
  next => cases h
  next =>
    have nested : topLevel = false := by simpa [Value.startsStyleRule] using h
    simp [nested]
  next =>
    have nested : topLevel = false := by simpa [Value.startsStyleRule] using h
    simp [nested]
  next => rfl

/-- Between rules, a value that does not start a style rule starts an at-rule or is passed over. -/
theorem stepBetween_of_not_starts {v : Value} (h : v.startsStyleRule topLevel = false) :
    (stepBetween topLevel v).2 = none ∧ ((stepBetween topLevel v).1 = between ∨
      ∃ name, (stepBetween topLevel v).1 = inAtRule name []) := by
  unfold Value.startsStyleRule at h
  split at h
  next => exact ⟨rfl, Or.inl rfl⟩
  next name => exact ⟨rfl, Or.inr ⟨name, rfl⟩⟩
  next =>
    have outside : topLevel = true := by simpa using h
    simp [stepBetween, outside]
  next =>
    have outside : topLevel = true := by simpa using h
    simp [stepBetween, outside]
  next => cases h

theorem collects_step {reader : RuleReader} {v : Value} (h : reader.Collects topLevel P)
    (hv : P v) :
    (reader.step topLevel v).1.Collects topLevel P ∧
      ∀ r ∈ (reader.step topLevel v).2, ReadFrom topLevel P r := by
  cases reader with
  | between =>
      show (stepBetween topLevel v).1.Collects topLevel P ∧ ∀ r ∈ (stepBetween topLevel v).2, _
      cases starts : v.startsStyleRule topLevel with
      | true =>
          rw [stepBetween_of_starts starts]
          exact collects_stepInStyleRule StylePrelude.nil hv fun _ => starts
      | false =>
          obtain ⟨nothing, next⟩ := stepBetween_of_not_starts starts
          refine ⟨?_, by simp [nothing]⟩
          rcases next with next | ⟨name, next⟩
          · rw [next]
            trivial
          · rw [next]
            simp [Collects, AtPrelude]
  | inAtRule name prelude => exact collects_stepInAtRule h hv
  | inStyleRule prelude => exact collects_stepInStyleRule h.2 hv fun none => absurd none h.1

theorem readFrom_of_mem_finish {reader : RuleReader} (h : reader.Collects topLevel P) :
    ∀ r ∈ reader.finish, ReadFrom topLevel P r := by
  intro r hr
  cases reader with
  | inAtRule name prelude =>
      cases hr
      exact .atAbsent h
  | between | inStyleRule => cases hr

theorem readFrom_of_mem_run {reader : RuleReader} (h : reader.Collects topLevel P)
    {vs : List Value} (each : ∀ v ∈ vs, P v) :
    ∀ r ∈ reader.run topLevel vs, ReadFrom topLevel P r := by
  induction vs generalizing reader with
  | nil =>
      intro r hr
      exact readFrom_of_mem_finish h r (Option.mem_toList.mp hr)
  | cons v vs ih =>
      obtain ⟨hv, hvs⟩ := List.forall_mem_cons.mp each
      obtain ⟨kept, completed⟩ := collects_step h hv
      intro r hr
      rcases List.mem_append.mp hr with hr | hr
      · exact completed r (Option.mem_toList.mp hr)
      · exact ih kept hvs r hr

theorem readFrom_of_mem_between {vs : List Value} (each : ∀ v ∈ vs, P v) :
    ∀ r ∈ between.run topLevel vs, ReadFrom topLevel P r := by
  have start : between.Collects topLevel P := trivial
  exact readFrom_of_mem_run start each

end RuleReader

/-- A rule as it is read: its declarations are those of a block, and its block is unread. -/
def Rule.Fresh : Rule → Prop
  | .style r => ∃ vs, r.declarations = Declaration.listOfValues vs
  | .at r => r.block = .absent ∨ ∃ vs, r.block = .raw vs

theorem RuleReader.ReadFrom.fresh {topLevel : Bool} {P : Value → Prop} {r : Rule}
    (h : ReadFrom topLevel P r) : r.Fresh := by
  cases h with
  | style _ _ => exact ⟨_, rfl⟩
  | atAbsent _ => exact Or.inl rfl
  | atBlock _ _ => exact Or.inr ⟨_, rfl⟩

theorem RuleReader.fresh_of_mem_between {topLevel : Bool} {vs : List Value} :
    ∀ r ∈ between.run topLevel vs, r.Fresh := by
  have any : ∀ v ∈ vs, True := fun _ _ => trivial
  exact fun r hr => (readFrom_of_mem_between any r hr).fresh

end CssSieve
