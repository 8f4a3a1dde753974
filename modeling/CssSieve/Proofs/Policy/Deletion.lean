import CssSieve.Proofs.Policy.Options
import CssSieve.Proofs.Sheet.Reading

/-!
# Sanitizing a sheet that was read only deletes

A declaration that was read is kept as it is, since its value has been stripped already and cannot
be stripped again. So the rules kept of a sheet that was read are `Rule.Reduced` forms of its rules:
some rules and declarations are left out, and the rest is the same, in the same order. Unread blocks
come into it as what they are read as; reading goes on while the rules are checked, and what is read
then is read in the same way.
-/

namespace CssSieve

/-- Some declarations are left out, but no custom property. -/
def Declaration.Reduced (ds kept : List Declaration) : Prop :=
  kept.Sublist ds ∧ kept.filter (·.isCustomProperty) = ds.filter (·.isCustomProperty)

mutual

/-- A rule in which rules and declarations are left out. -/
inductive Rule.Reduced : Rule → Rule → Prop
  | style {prelude : List Value} {ds kept : List Declaration} : Declaration.Reduced ds kept →
      Rule.Reduced (.style ⟨prelude, ds⟩) (.style ⟨prelude, kept⟩)
  | declarations {name : String} {prelude : List Value} {block : AtBlock}
      {ds kept : List Declaration} : Text.lower name ∈ ["font-face", "page"] →
      block.declarations? = some ds → Declaration.Reduced ds kept →
      Rule.Reduced (.at ⟨name, prelude, block⟩) (.at ⟨name, prelude, .declarations kept⟩)
  | rules {name : String} {prelude : List Value} {block : AtBlock} {rules kept : List Rule} :
      Text.lower name ∈ ["media", "keyframes"] → block.rules? = some rules →
      Rule.ReducedAll rules kept →
      Rule.Reduced (.at ⟨name, prelude, block⟩) (.at ⟨name, prelude, .rules kept⟩)

/-- Rules of which some are left out and the others are reduced. -/
inductive Rule.ReducedAll : List Rule → List Rule → Prop
  | nil : Rule.ReducedAll [] []
  | drop {rule : Rule} {rules kept : List Rule} : Rule.ReducedAll rules kept →
      Rule.ReducedAll (rule :: rules) kept
  | keep {rule reduced : Rule} {rules kept : List Rule} : Rule.Reduced rule reduced →
      Rule.ReducedAll rules kept → Rule.ReducedAll (rule :: rules) (reduced :: kept)

end

namespace DeclarationPolicy

/-! ## Declarations that were read -/

theorem annotated_declare (name : String) (value : List Value) :
    annotated (DeclarationReader.declare name value) = DeclarationReader.declare name value :=
  annotated_stripped name value.reverse

theorem keptForm_of_mem_listOfValues {vs : List Value} :
    ∀ d ∈ Declaration.listOfValues vs, d.keptForm = d := by
  intro d hd
  have any : ∀ v ∈ vs, True := fun _ _ => trivial
  obtain ⟨name, value, rfl, -⟩ := Declaration.readFrom_of_mem_listOfValues any d hd
  rw [Declaration.keptForm, annotated_declare, ite_self]

theorem reduced_survivors (policy : DeclarationPolicy) (vs : List Value) :
    Declaration.Reduced (Declaration.listOfValues vs)
      (policy.survivors (Declaration.listOfValues vs)) := by
  have same : policy.survivors (Declaration.listOfValues vs) =
      (Declaration.listOfValues vs).filter policy.Accepts := by
    rw [survivors, List.map_congr_left (g := id), List.map_id]
    intro d hd
    exact keptForm_of_mem_listOfValues d (List.mem_of_mem_filter hd)
  rw [same]
  refine ⟨List.filter_sublist, ?_⟩
  -- every custom property is accepted, so none is lost
  rw [List.filter_filter]
  apply List.filter_congr
  intro d _
  by_cases custom : d.isCustomProperty
  · have accepted : policy.Accepts d := Or.inl custom
    simp [custom, accepted]
  · simp [custom]

end DeclarationPolicy

namespace Policy

variable {policy : Policy} {scope : Scope} {rule : Rule}

/-! ## Rules that were read -/

theorem eq_listOfValues_of_declarations (fresh : rule.Fresh) {own : DeclarationPolicy}
    {ds : List Declaration} (held : policy.contents? scope rule = some (.declarations own ds)) :
    ∃ vs, ds = Declaration.listOfValues vs := by
  cases rule with
  | style r =>
      cases held
      exact fresh
  | «at» r =>
      obtain ⟨-, known, -, held⟩ := known_of_contents? held
      have read := AtRulePolicy.declarations?_of_contents? held
      rcases fresh with absent | ⟨vs, raw⟩
      · rw [absent] at read
        cases read
      · rw [raw] at read
        cases read
        exact ⟨vs, rfl⟩

theorem fresh_of_rules (fresh : rule.Fresh) {inner : Scope} {rules : List Rule}
    (held : policy.contents? scope rule = some (.rules inner rules)) : ∀ r ∈ rules, r.Fresh := by
  cases rule with
  | style r => cases held
  | «at» r =>
      obtain ⟨-, known, -, held⟩ := known_of_contents? held
      have read := AtRulePolicy.rules?_of_contents? held
      rcases fresh with absent | ⟨vs, raw⟩
      · rw [absent] at read
        cases read
      · rw [raw] at read
        cases read
        exact RuleReader.fresh_of_mem_between

theorem reducedAll_survivors {rules : List Rule}
    (h : ∀ r ∈ rules, ∀ kept, policy.keep scope r = some kept → Rule.Reduced r kept) :
    Rule.ReducedAll rules (policy.survivors scope rules) := by
  induction rules with
  | nil => exact .nil
  | cons r rs ih =>
      have rest := ih fun q hq => h q (List.mem_cons_of_mem r hq)
      rw [survivors, List.filterMap_cons]
      cases found : policy.keep scope r with
      | none => exact .drop rest
      | some kept => exact .keep (h r List.mem_cons_self kept found) rest

end Policy

namespace PolicyOptions

variable {o : PolicyOptions} {scope : Scope} {rule : Rule}

theorem reduced_withDeclarations (fresh : rule.Fresh) {own : DeclarationPolicy}
    {ds : List Declaration}
    (held : o.standardOnly.build.contents? scope rule = some (.declarations own ds)) :
    Rule.Reduced rule (rule.withDeclarations (own.survivors ds)) := by
  obtain ⟨vs, rfl⟩ := Policy.eq_listOfValues_of_declarations fresh held
  have reduced := own.reduced_survivors vs
  cases rule with
  | style r =>
      obtain ⟨prelude, ds⟩ := r
      cases held
      exact .style reduced
  | «at» r =>
      obtain ⟨name, prelude, block⟩ := r
      obtain ⟨-, known, found, held⟩ := Policy.known_of_contents? held
      exact .declarations (lower_mem_of_declarations found held)
        (AtRulePolicy.declarations?_of_contents? held) reduced

theorem reduced_withRules {inner : Scope} {rules kept : List Rule}
    (held : o.standardOnly.build.contents? scope rule = some (.rules inner rules))
    (reduced : Rule.ReducedAll rules kept) : Rule.Reduced rule (rule.withRules kept) := by
  cases rule with
  | style r => cases held
  | «at» r =>
      obtain ⟨name, prelude, block⟩ := r
      obtain ⟨-, known, found, held⟩ := Policy.known_of_contents? held
      exact .rules (lower_mem_of_rules found held) (AtRulePolicy.rules?_of_contents? held) reduced

theorem reduced_of_keep (fresh : rule.Fresh) {kept : Rule}
    (h : o.standardOnly.build.keep scope rule = some kept) : Rule.Reduced rule kept := by
  induction scope, rule using Policy.induction_on_contents o.standardOnly.build
    generalizing kept with
  | step scope rule ih =>
      have fate := Policy.fate_keep o.standard_standardOnly scope rule
      rw [h] at fate
      cases fate with
      | declarations admitted held => exact reduced_withDeclarations fresh held
      | rules admitted held =>
          have inside := Policy.fresh_of_rules fresh held
          apply reduced_withRules held
          exact Policy.reducedAll_survivors fun r hr kept => ih _ _ held r hr (inside r hr)

end PolicyOptions

end CssSieve
