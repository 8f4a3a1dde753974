import CssSieve.Value.Basic

/-!
# Style sheets

A style sheet is a list of rules. A style rule has a selector before its block and declarations
inside. An at-rule has a name and a prelude; what its block holds depends on the name, so reading a
sheet leaves the block as unread component values, and whoever knows the at-rule reads them as
declarations or as rules.
-/

namespace CssSieve

/-- `name: value`, and whether it was marked as important. -/
structure Declaration where
  name : String
  value : List Value
  important : Bool
deriving DecidableEq

/-- Whether the declaration defines a custom property. -/
def Declaration.isCustomProperty (d : Declaration) : Bool := isCustomPropertyName d.name

structure StyleRule where
  prelude : List Value
  declarations : List Declaration
deriving DecidableEq

mutual

/-- `@name prelude` with what follows the prelude. -/
structure AtRule where
  name : String
  prelude : List Value
  block : AtBlock

/-- The block of an at-rule. -/
inductive AtBlock where
  /-- The rule ends without a block. -/
  | absent
  /-- The block has not been read yet. -/
  | raw (values : List Value)
  | declarations (declarations : List Declaration)
  | rules (rules : List Rule)

inductive Rule where
  | style (rule : StyleRule)
  | at (rule : AtRule)

end

structure Sheet where
  rules : List Rule

instance : Inhabited AtBlock := ⟨.absent⟩

instance : Inhabited Rule := ⟨.style ⟨[], []⟩⟩

/-! ## Equality -/

mutual

def AtRule.decEq : (a b : AtRule) → Decidable (a = b)
  | ⟨n, p, x⟩, ⟨m, q, y⟩ =>
      if h : n = m ∧ p = q then
        match AtBlock.decEq x y with
        | isTrue h' => isTrue (by rw [h.1, h.2, h'])
        | isFalse h' => isFalse (by simp [h'])
      else isFalse (by simp only [AtRule.mk.injEq]; exact fun e => h ⟨e.1, e.2.1⟩)

def AtBlock.decEq : (a b : AtBlock) → Decidable (a = b)
  | .absent, .absent => isTrue rfl
  | .raw u, .raw v => if h : u = v then isTrue (by rw [h]) else isFalse (by simp [h])
  | .declarations c, .declarations d =>
      if h : c = d then isTrue (by rw [h]) else isFalse (by simp [h])
  | .rules r, .rules s =>
      match Rule.decEqList r s with
      | isTrue h => isTrue (by rw [h])
      | isFalse h => isFalse (by simp [h])
  | .absent, .raw _ | .absent, .declarations _ | .absent, .rules _
  | .raw _, .absent | .raw _, .declarations _ | .raw _, .rules _
  | .declarations _, .absent | .declarations _, .raw _ | .declarations _, .rules _
  | .rules _, .absent | .rules _, .raw _ | .rules _, .declarations _ => isFalse (by simp)

def Rule.decEq : (a b : Rule) → Decidable (a = b)
  | .style r, .style s => if h : r = s then isTrue (by rw [h]) else isFalse (by simp [h])
  | .at r, .at s =>
      match AtRule.decEq r s with
      | isTrue h => isTrue (by rw [h])
      | isFalse h => isFalse (by simp [h])
  | .style _, .at _ | .at _, .style _ => isFalse (by simp)

def Rule.decEqList : (a b : List Rule) → Decidable (a = b)
  | [], [] => isTrue rfl
  | [], _ :: _ | _ :: _, [] => isFalse (by simp)
  | r :: rs, s :: ss =>
      match Rule.decEq r s, Rule.decEqList rs ss with
      | isTrue h, isTrue h' => isTrue (by rw [h, h'])
      | isFalse h, _ => isFalse (by simp [h])
      | _, isFalse h => isFalse (by simp [h])

end

instance : DecidableEq AtRule := AtRule.decEq

instance : DecidableEq AtBlock := AtBlock.decEq

instance : DecidableEq Rule := Rule.decEq

deriving instance DecidableEq for Sheet

end CssSieve
