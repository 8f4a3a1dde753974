import CssSieve.Policy.Checked

/-!
# Checking the members of a list

Every list that is checked is checked in the same way: one member after the other, each with its
index. `each` is that way by itself, with the check of a member as a parameter. What it keeps does
not depend on the indices if what the check of a member keeps does not.
-/

namespace CssSieve.Checked

variable {α β : Type}

/-- Checks the members of a list, the first of which has the given index. -/
def each (check : Nat → α → Checked (Option β)) : Nat → List α → Checked (List β)
  | _, [] => ⟨[], []⟩
  | index, a :: as => (check index a).followedBy (each check (index + 1) as)

@[simp] theorem kept_followedBy (first : Checked (Option β)) (rest : Checked (List β)) :
    (first.followedBy rest).kept = first.kept.toList ++ rest.kept := rfl

@[simp] theorem diagnostics_followedBy (first : Checked (Option β)) (rest : Checked (List β)) :
    (first.followedBy rest).diagnostics = first.diagnostics ++ rest.diagnostics := rfl

@[simp] theorem kept_inside (index : Nat) (rebuild : α → β) (c : Checked α) :
    (c.inside index rebuild).kept = some (rebuild c.kept) := rfl

@[simp] theorem diagnostics_inside (index : Nat) (rebuild : α → β) (c : Checked α) :
    (c.inside index rebuild).diagnostics = Diagnostic.allNestedIn index c.diagnostics := rfl

@[simp] theorem kept_as (f : α → β) (c : Checked (Option α)) :
    (c.as f).kept = c.kept.map f := rfl

@[simp] theorem diagnostics_as (f : α → β) (c : Checked (Option α)) :
    (c.as f).diagnostics = c.diagnostics := rfl

@[simp] theorem kept_keep (a : α) : (keep a).kept = some a := rfl

@[simp] theorem diagnostics_keep (a : α) : (keep a).diagnostics = [] := rfl

@[simp] theorem kept_drop (why : Diagnostic) (notes : List Diagnostic) :
    (drop why notes : Checked (Option α)).kept = none := rfl

@[simp] theorem diagnostics_drop (why : Diagnostic) (notes : List Diagnostic) :
    (drop why notes : Checked (Option α)).diagnostics = why :: notes := rfl

theorem kept_each {check : Nat → α → Checked (Option β)} {keep : α → Option β}
    (h : ∀ index a, (check index a).kept = keep a) (index : Nat) (as : List α) :
    (each check index as).kept = as.filterMap keep := by
  induction as generalizing index with
  | nil => rfl
  | cons a as ih =>
      rw [each, kept_followedBy, h, ih, List.filterMap_cons]
      cases keep a <;> rfl

/-- Where every member passes its check as what it comes from, so does the list. -/
theorem each_map {check : Nat → α → Checked (Option β)} {f : β → α} (bs : List β)
    (h : ∀ b ∈ bs, ∀ index, check index (f b) = keep b) (index : Nat) :
    each check index (bs.map f) = ⟨bs, []⟩ := by
  induction bs generalizing index with
  | nil => rfl
  | cons b bs ih =>
      have rest := ih (fun c hc => h c (List.mem_cons_of_mem b hc)) (index + 1)
      rw [List.map_cons, each, h b List.mem_cons_self, rest]
      rfl

/-- Where every member passes its check unchanged, so does the list. -/
theorem each_eq_self {check : Nat → α → Checked (Option α)} (as : List α)
    (h : ∀ a ∈ as, ∀ index, check index a = keep a) (index : Nat) :
    each check index as = ⟨as, []⟩ := by
  have passed := each_map (f := id) as h index
  rwa [List.map_id] at passed

end CssSieve.Checked
