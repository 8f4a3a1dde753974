import CssSieve.Proofs.Policy.Each

/-!
# Diagnostics as reports

What is said of one thing that is dropped is a `Report`: an error, and right behind it the notes on
the value that the error is about. A list of diagnostics `Accounts` for a set of places if it
consists of reports, one for each place of the set and none for any other, in document order. What a
check says is put together from what is said of the members of a list, each filed under its index;
`Accounts.append`, `Accounts.nestedIn` and `Accounts.each` follow it.
-/

namespace CssSieve

namespace Location

/-- The indices that lead to a place, the outermost first. -/
def path : Location → List Nat
  | rule index => [index]
  | declaration index _ => [index]
  | value _ offset => [offset]
  | nested index place => index :: place.path

/-- Document order: a rule stands before what is inside it. -/
def Before (a b : Location) : Prop := a.path < b.path

/-- A place inside the value of a declaration, and the place of that declaration. -/
inductive InValueOf : Location → Location → Prop
  | here {index offset : Nat} {property : String} :
      InValueOf (.value property offset) (.declaration index property)
  | nested {index : Nat} {a b : Location} : InValueOf a b →
      InValueOf (.nested index a) (.nested index b)

theorem nested_before_nested {index : Nat} {a b : Location} :
    Before (.nested index a) (.nested index b) ↔ Before a b := by
  simp [Before, path]

theorem before_of_head?_lt {a b : Location} {i j : Nat} (ha : a.path.head? = some i)
    (hb : b.path.head? = some j) (lt : i < j) : Before a b := by
  obtain ⟨as, ha⟩ := List.head?_eq_some_iff.mp ha
  obtain ⟨bs, hb⟩ := List.head?_eq_some_iff.mp hb
  rw [Before, ha, hb, List.cons_lt_cons_iff]
  exact Or.inl lt

end Location

open Location (Before InValueOf)

/-- What is said of one thing that is dropped. Notes are about the value of a declaration. -/
structure Report where
  error : Diagnostic
  notes : List Diagnostic
  isError : error.severity = .error
  areNotes : ∀ note ∈ notes, note.severity = .note
  onValue : ∀ note ∈ notes, error.code = .invalidValue ∧ InValueOf note.location error.location

namespace Report

/-- The place of what is dropped. -/
def place (r : Report) : Location := r.error.location

def diagnostics (r : Report) : List Diagnostic := r.error :: r.notes

/-- The report with all its places taken as inside a rule. -/
def nestedIn (r : Report) (index : Nat) : Report where
  error := r.error.nestedIn index
  notes := Diagnostic.allNestedIn index r.notes
  isError := r.isError
  areNotes := by
    intro note hnote
    obtain ⟨inner, hinner, rfl⟩ := List.mem_map.mp hnote
    exact r.areNotes inner hinner
  onValue := by
    intro note hnote
    obtain ⟨inner, hinner, rfl⟩ := List.mem_map.mp hnote
    obtain ⟨code, inside⟩ := r.onValue inner hinner
    exact ⟨code, InValueOf.nested inside⟩

theorem place_nestedIn (r : Report) (index : Nat) :
    (r.nestedIn index).place = .nested index r.place := rfl

theorem errorCount_diagnostics (r : Report) : Diagnostic.errorCount r.diagnostics = 1 := by
  have no_error : r.notes.countP (·.severity == .error) = 0 := by
    rw [List.countP_eq_zero]
    intro note hnote
    rw [r.areNotes note hnote]
    decide
  rw [Diagnostic.errorCount, diagnostics, List.countP_cons, no_error, r.isError]
  decide

end Report

/-! ## Counting errors -/

theorem Diagnostic.errorCount_allNestedIn (index : Nat) (ds : List Diagnostic) :
    errorCount (allNestedIn index ds) = errorCount ds := by
  rw [errorCount, allNestedIn, List.countP_map]
  rfl

theorem Checked.errorCount_each {α β γ : Type} {check : Nat → α → Checked (Option β)}
    {entries : α → List γ} {dropped : γ → Bool} {as : List α}
    (h : ∀ a ∈ as, ∀ index,
      Diagnostic.errorCount (check index a).diagnostics = (entries a).countP dropped)
    (index : Nat) :
    Diagnostic.errorCount (each check index as).diagnostics =
      (as.flatMap entries).countP dropped := by
  induction as generalizing index with
  | nil => rfl
  | cons a as ih =>
      have rest := ih (fun b hb => h b (List.mem_cons_of_mem a hb)) (index + 1)
      have first := h a List.mem_cons_self index
      rw [Diagnostic.errorCount] at first rest ⊢
      rw [each, diagnostics_followedBy, List.countP_append, first, rest, List.flatMap_cons,
        List.countP_append]

/-! ## One report for each place -/

/-- The diagnostics are one report for each of the places, in document order, and nothing else. -/
def Accounts (ds : List Diagnostic) (dropped : Location → Prop) : Prop :=
  ∃ reports : List Report, ds = reports.flatMap Report.diagnostics ∧
    (reports.map Report.place).Pairwise Before ∧
    ∀ place, place ∈ reports.map Report.place ↔ dropped place

namespace Accounts

variable {ds es : List Diagnostic} {dropped more : Location → Prop}

theorem congr (h : Accounts ds dropped) (same : ∀ place, dropped place ↔ more place) :
    Accounts ds more := by
  obtain ⟨reports, said, ordered, placed⟩ := h
  exact ⟨reports, said, ordered, fun place => (placed place).trans (same place)⟩

theorem nothing (none_dropped : ∀ place, ¬dropped place) : Accounts [] dropped := by
  refine ⟨[], rfl, List.Pairwise.nil, ?_⟩
  intro place
  simpa using none_dropped place

theorem single (r : Report) : Accounts r.diagnostics (· = r.place) := by
  refine ⟨[r], by simp, List.pairwise_singleton _ _, ?_⟩
  intro place
  simp

theorem nestedIn (h : Accounts ds dropped) (index : Nat) :
    Accounts (Diagnostic.allNestedIn index ds)
      fun place => ∃ inner, place = .nested index inner ∧ dropped inner := by
  obtain ⟨reports, rfl, ordered, placed⟩ := h
  have places : (reports.map (·.nestedIn index)).map Report.place =
      (reports.map Report.place).map (.nested index) := by
    simp [List.map_map, Function.comp_def, Report.place_nestedIn]
  refine ⟨reports.map (·.nestedIn index), ?_, ?_, ?_⟩
  · rw [List.flatMap_map, Diagnostic.allNestedIn, List.map_flatMap]
    rfl
  · rw [places, List.pairwise_map]
    exact ordered.imp Location.nested_before_nested.mpr
  · intro place
    rw [places, List.mem_map]
    constructor
    · rintro ⟨inner, hinner, rfl⟩
      exact ⟨inner, rfl, (placed inner).mp hinner⟩
    · rintro ⟨inner, rfl, hinner⟩
      exact ⟨inner, (placed inner).mpr hinner, rfl⟩

theorem append (first : Accounts ds dropped) (second : Accounts es more)
    (apart : ∀ a b, dropped a → more b → Before a b) :
    Accounts (ds ++ es) fun place => dropped place ∨ more place := by
  obtain ⟨reports, rfl, ordered, placed⟩ := first
  obtain ⟨others, rfl, ordered', placed'⟩ := second
  refine ⟨reports ++ others, by rw [List.flatMap_append], ?_, ?_⟩
  · rw [List.map_append, List.pairwise_append]
    refine ⟨ordered, ordered', ?_⟩
    intro a ha b hb
    exact apart a b ((placed a).mp ha) ((placed' b).mp hb)
  · intro place
    rw [List.map_append, List.mem_append, placed, placed']

/-- What is said of the members of a list, if every place belongs to the index of its member. -/
theorem each {α β : Type} {check : Nat → α → Checked (Option β)}
    {droppedAt : Nat → α → Location → Prop} {as : List α}
    (member : ∀ a ∈ as, ∀ index, Accounts (check index a).diagnostics (droppedAt index a))
    (heads : ∀ index a place, droppedAt index a place → place.path.head? = some index)
    (index : Nat) :
    Accounts (Checked.each check index as).diagnostics
      fun place => ∃ i a, as[i]? = some a ∧ droppedAt (index + i) a place := by
  induction as generalizing index with
  | nil => exact nothing (by simp)
  | cons a as ih =>
      have first := member a List.mem_cons_self index
      have rest := ih (fun b hb => member b (List.mem_cons_of_mem a hb)) (index + 1)
      rw [Checked.each, Checked.diagnostics_followedBy]
      refine (first.append rest ?_).congr ?_
      · rintro p q hp ⟨i, b, -, hq⟩
        exact Location.before_of_head?_lt (heads _ _ _ hp) (heads _ _ _ hq) (by omega)
      · intro place
        constructor
        · rintro (here | ⟨i, b, hb, later⟩)
          · exact ⟨0, a, rfl, here⟩
          · exact ⟨i + 1, b, hb, by rwa [← Nat.add_assoc, Nat.add_right_comm]⟩
        · rintro ⟨i, b, hb, at_index⟩
          cases i with
          | zero =>
              cases hb
              exact Or.inl at_index
          | succ i =>
              refine Or.inr ⟨i, b, hb, ?_⟩
              rwa [← Nat.add_assoc, Nat.add_right_comm] at at_index

end Accounts

end CssSieve
