import CssSieve.Policy.Options
import CssSieve.Proofs.Grammar.Respelling
import CssSieve.Proofs.Policy.Options
import CssSieve.Proofs.Property.Leaves

/-!
# Policies that do not see the case of names

A policy is `CaseBlind` if all its grammars are: those of properties and descriptors, of selectors,
and of the preludes of at-rules. Every policy is that is put together from the standard or the
extended basic data types with nothing added by the host.
-/

namespace CssSieve

open Grammar

theorem Grammar.blindLeaf_noWhitespace : BlindLeaf noWhitespace := trivial

@[simp] theorem Grammar.blind_noWhitespace : noWhitespace.Leaves BlindLeaf :=
  blindLeaf_noWhitespace

@[simp] theorem Grammar.blind_touching {a b : Grammar} :
    (touching a b).Leaves BlindLeaf ↔ a.Leaves BlindLeaf ∧ b.Leaves BlindLeaf := by
  simp [touching]

/-! ## Selectors -/

namespace Selector

theorem isIdHash_respelled {c : Respelling} {s t : Token} (h : s.Respelled c t) :
    isIdHash s = isIdHash t := by
  cases h <;> rfl

theorem isNotOf_respelled {c : Respelling} {s t : Token} (h : s.Respelled c t) :
    isNotOf s = isNotOf t := by
  have both := h.text?_rel
  rw [isNotOf, isNotOf]
  generalize s.text? = left, t.text? = right at both
  cases both with
  | none => rfl
  | some same => simp only [Text.caseless_congr same]

theorem blind_idSelector : idSelector.Leaves BlindLeaf := fun _ _ _ => isIdHash_respelled

theorem blind_anPlusB : anPlusB.Leaves BlindLeaf := by
  have notOf : (tokenThat .ident isNotOf).Leaves BlindLeaf := fun _ _ _ => isNotOf_respelled
  simp [anPlusB, notOf]

theorem blind_attributeSelector : attributeSelector.Leaves BlindLeaf := by
  simp [attributeSelector, ident]

/-- The grammars of a level do not see the case of names. -/
structure Level.CaseBlind (l : Level) : Prop where
  compound : l.compound.Leaves BlindLeaf
  complex : l.complex.Leaves BlindLeaf
  list : l.list.Leaves BlindLeaf
  relativeList : l.relativeList.Leaves BlindLeaf

theorem blind_pseudoClass {selectors relative : Option Grammar}
    (hs : ∀ g ∈ selectors, g.Leaves BlindLeaf) (hr : ∀ g ∈ relative, g.Leaves BlindLeaf) :
    (pseudoClass selectors relative).Leaves BlindLeaf := by
  cases selectors <;> cases relative <;>
    simp_all [pseudoClass, nthArguments, blind_anPlusB, ident, colon]

theorem blind_pseudoElement {compound : Option Grammar}
    (hc : ∀ g ∈ compound, g.Leaves BlindLeaf) : (pseudoElement compound).Leaves BlindLeaf := by
  cases compound <;> simp_all [pseudoElement, ident, colon]

theorem blind_level {inner : Option Level} (h : ∀ l ∈ inner, l.CaseBlind) :
    (level inner).CaseBlind := by
  have pseudoElements : (pseudoElement (inner.map (·.compound))).Leaves BlindLeaf := by
    apply blind_pseudoElement
    simpa using fun l hl => (h l hl).compound
  have pseudoClasses : (pseudoClass (inner.map (·.list)) (inner.map (·.relativeList))).Leaves
      BlindLeaf := by
    apply blind_pseudoClass
    · simpa using fun l hl => (h l hl).list
    · simpa using fun l hl => (h l hl).relativeList
  have combinators : combinator.Leaves BlindLeaf := by simp [combinator]
  have compound : (level inner).compound.Leaves BlindLeaf := by
    simp [level, typeSelector, classSelector, ident, blind_idSelector, blind_attributeSelector,
      pseudoElements, pseudoClasses]
  have complex : (level inner).complex.Leaves BlindLeaf := by
    show (seq [(level inner).compound,
      many (seq [optional combinator, (level inner).compound])]).Leaves BlindLeaf
    simp [compound, combinators]
  refine ⟨compound, complex, complex, ?_⟩
  show (commaList (seq [optional combinator, (level inner).complex]) 1).Leaves BlindLeaf
  simp [complex, combinators]

theorem blind_nested (depth : Nat) : (nested depth).CaseBlind := by
  induction depth with
  | zero => exact blind_level (by simp)
  | succ depth ih => exact blind_level (by simpa using ih)

theorem caseBlind_list : list.CaseBlind := (blind_nested maxNesting).list

theorem caseBlind_keyframeList : keyframeList.CaseBlind := by
  show keyframeList.Leaves BlindLeaf
  simp [keyframeList]

theorem caseBlind_pageList : pageList.CaseBlind := by
  show pageList.Leaves BlindLeaf
  simp [pageList, colon, ident]

end Selector

/-! ## Media queries -/

namespace MediaQuery

theorem isMediaType_respelled {c : Respelling} {s t : Token} (h : s.Respelled c t) :
    isMediaType s = isMediaType t := by
  have both := h.text?_rel
  rw [isMediaType, isMediaType]
  generalize s.text? = left, t.text? = right at both
  cases both with
  | none => rfl
  | some same => simp only [Text.caselessMem_congr same]

theorem blind_conditionOf {term : Grammar} (h : term.Leaves BlindLeaf) (allowOr : Bool) :
    (conditionOf term allowOr).Leaves BlindLeaf := by
  cases allowOr <;> simp [conditionOf, h]

variable {p : Primitives} [p.MadeOf BlindLeaf]

theorem blind_feature : (feature p).Leaves BlindLeaf := by
  simp [feature, featureValue, featureName, comparison]

theorem blind_inParens (depth : Nat) : (inParens p depth).Leaves BlindLeaf := by
  induction depth with
  | zero => exact blind_feature
  | succ depth ih => simp [inParens, blind_feature, blind_conditionOf ih]

theorem caseBlind_list : (list p).CaseBlind := by
  have mediaType : (tokenThat .ident isMediaType).Leaves BlindLeaf :=
    fun _ _ _ => isMediaType_respelled
  show (list p).Leaves BlindLeaf
  simp [list, query, condition, blind_conditionOf, blind_inParens, mediaType]

end MediaQuery

/-! ## Policies -/

/-- The grammars of all properties, and of what each of them accepts, are blind. -/
structure DeclarationPolicy.CaseBlind (policy : DeclarationPolicy) : Prop where
  registry : policy.registry.MadeOf BlindLeaf
  wide : policy.wide.CaseBlind

structure StyleRulePolicy.CaseBlind (policy : StyleRulePolicy) : Prop where
  selectors : policy.selectors.CaseBlind
  declarations : policy.declarations.CaseBlind

def AtRulePolicy.CaseBlind : AtRulePolicy → Prop
  | fontFace descriptors => descriptors.CaseBlind
  | media queries => queries.CaseBlind
  | keyframes name frames => name.CaseBlind ∧ frames.CaseBlind
  | page selectors declarations => selectors.CaseBlind ∧ declarations.CaseBlind
  | custom _ => False

structure Policy.CaseBlind (policy : Policy) : Prop where
  styleRules : policy.styleRules.CaseBlind
  atRules : ∀ name, ∀ known ∈ policy.atRules.get? name, known.CaseBlind

theorem AtRulePolicy.CaseBlind.standard {known : AtRulePolicy} (h : known.CaseBlind) :
    known.Standard := by
  cases known with
  | custom check => exact h.elim
  | fontFace | media | keyframes | page => trivial

namespace PolicyOptions

variable {o : PolicyOptions} [o.primitives.MadeOf BlindLeaf]

theorem caseBlind_declarations (registry : ∀ r ∈ o.registry, Registry.MadeOf BlindLeaf r)
    (wide : ∀ g ∈ o.wide, g.CaseBlind) : o.declarations.CaseBlind := by
  have known : Registry.MadeOf BlindLeaf (o.registry.getD (Property.standard o.primitives)) := by
    cases chosen : o.registry with
    | none =>
        -- without this step the whole table is evaluated to see that it is the one chosen
        rw [Option.getD_none]
        exact Property.madeOf_standard
    | some r => exact registry r chosen
  have words : (o.wide.getD o.primitives.wideKeywords).CaseBlind := by
    cases chosen : o.wide with
    | none => exact Primitives.MadeOf.wideKeywords
    | some g => exact wide g chosen
  exact ⟨known, words⟩

theorem caseBlind_standard (declarations : o.declarations.CaseBlind)
    (descriptors : ∀ r ∈ o.fontFaceRegistry, Registry.MadeOf BlindLeaf r) :
    ∀ e ∈ o.standard, e.2.CaseBlind := by
  have name : (AtRulePolicy.keyframesName o.primitives).Leaves BlindLeaf := by
    simp [AtRulePolicy.keyframesName]
  have fontFace : Registry.MadeOf BlindLeaf
      (o.fontFaceRegistry.getD (Property.fontFace o.primitives)) := by
    cases chosen : o.fontFaceRegistry with
    | none =>
        rw [Option.getD_none]
        exact Property.madeOf_fontFace blindLeaf_noWhitespace
    | some r => exact descriptors r chosen
  simp only [standard, List.forall_mem_cons, List.not_mem_nil, false_imp_iff, implies_true,
    and_true]
  exact ⟨⟨fontFace, Primitives.MadeOf.wideKeywords⟩, MediaQuery.caseBlind_list,
    ⟨name, Selector.caseBlind_keyframeList, declarations⟩,
    Selector.caseBlind_pageList, declarations⟩

/-- A policy for which the host chooses blind grammars only, and no at-rules of its own. -/
theorem caseBlind_build (registry : ∀ r ∈ o.registry, Registry.MadeOf BlindLeaf r)
    (descriptors : ∀ r ∈ o.fontFaceRegistry, Registry.MadeOf BlindLeaf r)
    (wide : ∀ g ∈ o.wide, g.CaseBlind) (alone : o.atRules = []) : o.build.CaseBlind := by
  have declarations := caseBlind_declarations registry wide
  refine ⟨⟨Selector.caseBlind_list, declarations⟩, ?_⟩
  intro name known found
  obtain ⟨e, listed, -, rfl⟩ := NameTable.exists_of_get?_ofList found
  rw [alone, List.append_nil] at listed
  split at listed
  · exact caseBlind_standard declarations descriptors e listed
  · cases listed

instance : PolicyOptions.extended.primitives.MadeOf BlindLeaf :=
  inferInstanceAs (Primitives.extended.MadeOf BlindLeaf)

end PolicyOptions

theorem Policy.caseBlind_standard : Policy.standard.CaseBlind := by
  apply PolicyOptions.caseBlind_build
  · simp
  · simp
  · simp
  · rfl

theorem Policy.caseBlind_extended : Policy.extended.CaseBlind := by
  apply PolicyOptions.caseBlind_build
  · simp only [PolicyOptions.extended, Option.mem_some_iff, forall_eq']
    exact Property.madeOf_extended
  · simp only [PolicyOptions.extended, Option.mem_some_iff, forall_eq']
    exact Property.madeOf_extendedFontFace blindLeaf_noWhitespace
  · simp only [PolicyOptions.extended, Option.mem_some_iff, forall_eq']
    exact Property.leaves_referenceAnywhere
  · rfl

end CssSieve
