import CssSieve.Diagnostic.Basic

/-!
# Results of checks
-/

namespace CssSieve

/-- What a check keeps, and why it drops the rest. -/
structure Checked (α : Type) where
  kept : α
  diagnostics : List Diagnostic

namespace Checked

variable {α β : Type}

/-- One thing is kept as it is. -/
def keep (a : α) : Checked (Option α) := ⟨some a, []⟩

/-- One thing is dropped. -/
def drop (why : Diagnostic) (notes : List Diagnostic) : Checked (Option α) := ⟨none, why :: notes⟩

/-- What is kept, as something else. -/
def as (f : α → β) (c : Checked (Option α)) : Checked (Option β) := ⟨c.kept.map f, c.diagnostics⟩

/-- What is kept of one thing, then what is kept of those behind it. -/
def followedBy (first : Checked (Option α)) (rest : Checked (List α)) : Checked (List α) :=
  ⟨first.kept.toList ++ rest.kept, first.diagnostics ++ rest.diagnostics⟩

/-- A rule that is kept with what is kept inside it; the diagnostics are filed under its index. -/
def inside (index : Nat) (rebuild : α → β) (c : Checked α) : Checked (Option β) :=
  ⟨some (rebuild c.kept), Diagnostic.allNestedIn index c.diagnostics⟩

end Checked

end CssSieve
