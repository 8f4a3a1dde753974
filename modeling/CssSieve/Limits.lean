import CssSieve.Sheet.Basic

/-!
# Limits on the size of sheets

Checking a sheet takes time that is bounded by its size, so whoever accepts sheets from strangers
first holds them against limits. The check goes through the sheet in document order and reports the
first limit that is exceeded: the nesting of a list of rules before the rules in it, the number of
rules before what is in a rule, its prelude before its block, and the length of a value before its
depth.
-/

namespace CssSieve

/-- A limit that a sheet exceeds, with what was found and what is allowed. -/
inductive LimitError where
  /-- Too many rules, counted up to the first one too many. -/
  | tooManyRules (count allowed : Nat)
  /-- Too many component values in a declaration. -/
  | valueTooLong (property : String) (length allowed : Nat)
  /-- Functions and blocks, or rules, nest too deeply. -/
  | tooDeep (depth allowed : Nat)
deriving DecidableEq, Repr

namespace LimitError

def name : LimitError → String
  | tooManyRules _ _ => "TooManyRules"
  | valueTooLong _ _ _ => "ValueTooLong"
  | tooDeep _ _ => "TooDeep"

def message : LimitError → String
  | tooManyRules count allowed =>
    s!"stylesheet has {count} rules, more than the limit of {allowed}"
  | valueTooLong property length allowed =>
    s!"value of '{property}' has {length} component values, more than the limit of {allowed}"
  | tooDeep depth allowed => s!"nesting depth {depth} exceeds the limit of {allowed}"

end LimitError

structure Limits where
  /-- The number of rules, nested ones included. -/
  maxRules : Nat := 10000
  /-- The number of component values in a declaration, not counting those inside others. -/
  maxValueLength : Nat := 1000
  /-- The nesting of functions and blocks in a list of values, and of rules in at-rules. -/
  maxDepth : Nat := 32
deriving DecidableEq, Repr

namespace Limits

/-- Limits that no sheet in memory exceeds. -/
def unlimited : Limits := ⟨UInt64.size - 1, UInt64.size - 1, UInt64.size - 1⟩

/-- Checks a depth. -/
def checkDepth (l : Limits) (depth : Nat) : Except LimitError Unit :=
  if l.maxDepth < depth then .error (.tooDeep depth l.maxDepth) else .ok ()

/-- Checks the depth of a list of values. -/
def checkValues (l : Limits) (vs : List Value) : Except LimitError Unit :=
  l.checkDepth (Value.depthAll vs)

def checkDeclaration (l : Limits) (d : Declaration) : Except LimitError Unit := do
  if l.maxValueLength < d.value.length then
    throw (.valueTooLong d.name d.value.length l.maxValueLength)
  l.checkValues d.value

def checkDeclarations (l : Limits) : List Declaration → Except LimitError Unit
  | [] => .ok ()
  | d :: ds => do
    l.checkDeclaration d
    l.checkDeclarations ds

/-- One more rule. -/
def countRule (l : Limits) (count : Nat) : Except LimitError Nat :=
  if l.maxRules < count + 1 then .error (.tooManyRules (count + 1) l.maxRules) else .ok (count + 1)

mutual

/-- Checks the block of an at-rule in a list that nests to a depth, given how many rules there
were before. Answers how many there are then. -/
def checkBlock (l : Limits) (depth count : Nat) : AtBlock → Except LimitError Nat
  | .absent => .ok count
  | .raw vs => do
      l.checkValues vs
      return count
  | .declarations ds => do
      l.checkDeclarations ds
      return count
  | .rules rs => do
      l.checkDepth (depth + 1)
      l.checkRules (depth + 1) count rs

def checkAtRule (l : Limits) (depth count : Nat) : AtRule → Except LimitError Nat
  | ⟨_, prelude, block⟩ => do
      l.checkValues prelude
      l.checkBlock depth count block

def checkRule (l : Limits) (depth count : Nat) : Rule → Except LimitError Nat
  | .style r => do
      l.checkValues r.prelude
      l.checkDeclarations r.declarations
      return count
  | .at r => l.checkAtRule depth count r

/-- Checks the rules of a list whose own depth is in order. -/
def checkRules (l : Limits) (depth count : Nat) : List Rule → Except LimitError Nat
  | [] => .ok count
  | r :: rs => do
      let count ← l.countRule count
      let count ← l.checkRule depth count r
      l.checkRules depth count rs

end

/-- The first limit that a sheet exceeds is an error. -/
def check (l : Limits) (s : Sheet) : Except LimitError Unit := do
  l.checkDepth 0
  discard (l.checkRules 0 0 s.rules)

end Limits

end CssSieve
