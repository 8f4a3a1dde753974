import CssSieve.Policy.Declaration
import CssSieve.Proofs.Policy.Each
import CssSieve.Proofs.Sheet.Important

/-!
# Which declarations are accepted

`Accepts` says of a declaration by itself that it is kept, and `keptForm` says as what. The two
determine a check (`check_of_accepts`, `kept_check`), and so what is kept of a whole block: the
accepted declarations, in order, each in its kept form. A declaration in its kept form is accepted
as before and is not changed again.
-/

namespace CssSieve

open DeclarationPolicy (annotated)

/-- The form in which a declaration is kept. A custom property stays as it is. -/
def Declaration.keptForm (d : Declaration) : Declaration :=
  if d.isCustomProperty then d else annotated d

namespace DeclarationPolicy

/-- A declaration is accepted if it is a custom property, or if its property is known and its
value, without an annotation of importance, matches as a whole. -/
def Accepts (policy : DeclarationPolicy) (d : Declaration) : Prop :=
  d.isCustomProperty ∨ ∃ grammar ∈ policy.registry.get? d.name,
    grammar.matchesAll (annotated d).value ∨ policy.wide.matchesAll (annotated d).value

instance (policy : DeclarationPolicy) : DecidablePred policy.Accepts := fun _ =>
  inferInstanceAs (Decidable (_ ∨ _))

theorem annotated_name (d : Declaration) : (annotated d).name = d.name := by
  unfold annotated
  split <;> rfl

/-- A value that was stripped once has no annotation left to take, or its flag is set. -/
theorem annotated_stripped (name : String) (value : List Value) :
    annotated ⟨name, (stripImportant value).1, (stripImportant value).2⟩ =
      ⟨name, (stripImportant value).1, (stripImportant value).2⟩ := by
  cases marked : (stripImportant value).2 with
  | true => simp [annotated]
  | false => simp [annotated, stripImportant_of_unmarked marked, marked]

theorem annotated_annotated (d : Declaration) : annotated (annotated d) = annotated d := by
  by_cases set : d.important
  · have h : annotated d = d := by simp [annotated, set]
    rw [h, h]
  · have h : annotated d = ⟨d.name, (stripImportant d.value).1, (stripImportant d.value).2⟩ := by
      simp [annotated, set]
    rw [h, annotated_stripped]

end DeclarationPolicy

namespace Declaration

open DeclarationPolicy (annotated_name annotated_annotated)

theorem keptForm_name (d : Declaration) : d.keptForm.name = d.name := by
  unfold keptForm
  split
  · rfl
  · exact annotated_name d

theorem isCustomProperty_keptForm (d : Declaration) :
    d.keptForm.isCustomProperty = d.isCustomProperty := by
  rw [isCustomProperty, keptForm_name, isCustomProperty]

theorem keptForm_of_custom {d : Declaration} (h : d.isCustomProperty) : d.keptForm = d :=
  if_pos h

theorem keptForm_of_not_custom {d : Declaration} (h : ¬d.isCustomProperty) :
    d.keptForm = annotated d :=
  if_neg h

theorem keptForm_keptForm (d : Declaration) : d.keptForm.keptForm = d.keptForm := by
  by_cases custom : d.isCustomProperty
  · rw [keptForm_of_custom custom, keptForm_of_custom custom]
  · have still : ¬d.keptForm.isCustomProperty := by rwa [isCustomProperty_keptForm]
    rw [keptForm_of_not_custom still, keptForm_of_not_custom custom, annotated_annotated]

end Declaration

namespace DeclarationPolicy

variable {policy : DeclarationPolicy}

theorem accepts_keptForm {d : Declaration} (h : policy.Accepts d) :
    policy.Accepts d.keptForm := by
  by_cases custom : d.isCustomProperty
  · exact Or.inl (by rwa [Declaration.isCustomProperty_keptForm])
  · rcases h with h | ⟨grammar, known, fits⟩
    · exact absurd h custom
    · refine Or.inr ⟨grammar, ?_, ?_⟩
      · rwa [Declaration.keptForm_name]
      · rwa [Declaration.keptForm_of_not_custom custom, annotated_annotated]

theorem check_of_accepts {d : Declaration} (h : policy.Accepts d) (index : Nat) :
    policy.check index d = .keep d.keptForm := by
  by_cases custom : d.isCustomProperty
  · rw [Declaration.keptForm_of_custom custom, check, if_pos custom]
  · rcases h with h | ⟨grammar, known, fits⟩
    · exact absurd h custom
    · have known : policy.registry.get? d.name = some grammar := known
      rw [Declaration.keptForm_of_not_custom custom, check, if_neg custom, known]
      exact if_pos (by simpa using fits)

theorem kept_check_of_not_accepts {d : Declaration} (h : ¬policy.Accepts d) (index : Nat) :
    (policy.check index d).kept = none := by
  obtain ⟨custom, refused⟩ := not_or.mp h
  rw [check, if_neg custom]
  cases known : policy.registry.get? d.name with
  | none => rfl
  | some grammar =>
      have misfit := fun fits => refused ⟨grammar, known, fits⟩
      rw [← Bool.or_eq_true] at misfit
      simp only [if_neg misfit, Checked.kept_drop]

theorem kept_check (index : Nat) (d : Declaration) :
    (policy.check index d).kept = if policy.Accepts d then some d.keptForm else none := by
  split
  next h => rw [check_of_accepts h, Checked.kept_keep]
  next h => exact kept_check_of_not_accepts h index

theorem checkFrom_eq_each (index : Nat) (ds : List Declaration) :
    policy.checkFrom index ds = Checked.each policy.check index ds := by
  induction ds generalizing index with
  | nil => rfl
  | cons d ds ih => rw [checkFrom, Checked.each, ih]

/-- What is kept of a block. -/
def survivors (policy : DeclarationPolicy) (ds : List Declaration) : List Declaration :=
  (ds.filter policy.Accepts).map Declaration.keptForm

theorem kept_checkAll (ds : List Declaration) :
    (policy.checkAll ds).kept = policy.survivors ds := by
  rw [checkAll, checkFrom_eq_each, Checked.kept_each kept_check, survivors]
  induction ds with
  | nil => rfl
  | cons d ds ih => by_cases h : policy.Accepts d <;> simp [h, ih]

theorem checkAll_survivors (ds : List Declaration) :
    policy.checkAll (policy.survivors ds) = ⟨policy.survivors ds, []⟩ := by
  rw [checkAll, checkFrom_eq_each]
  refine Checked.each_eq_self _ ?_ 0
  intro d hd index
  obtain ⟨source, hsource, rfl⟩ := List.mem_map.mp hd
  have accepted : policy.Accepts source := by simpa using List.of_mem_filter hsource
  rw [check_of_accepts (accepts_keptForm accepted), Declaration.keptForm_keptForm]

end DeclarationPolicy

end CssSieve
