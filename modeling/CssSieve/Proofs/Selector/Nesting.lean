import CssSieve.Proofs.Grammar.Height
import CssSieve.Proofs.Grammar.Parts
import CssSieve.Proofs.Selector.Splitting

/-!
# How deeply selectors nest

The grammars of one depth of nesting are those of the depth before with arguments allowed one
level further down. So a selector of one depth is one of every greater depth, and its functions and
blocks nest no deeper than the depth says.
-/

namespace CssSieve.Selector

open Grammar

/-! ## Wider arguments -/

/-- The grammar of arguments on the one side, if there is one, is within that on the other. -/
def ArgumentsWithin (g h : Option Grammar) : Prop := ∀ a ∈ g, ∃ b ∈ h, a.Within b

/-- All grammars of the one level are within those of the other. -/
structure Level.Within (l m : Level) : Prop where
  compound : l.compound.Within m.compound
  complex : l.complex.Within m.complex
  list : l.list.Within m.list
  relativeList : l.relativeList.Within m.relativeList

variable {selectors selectors' relative relative' compound compound' : Option Grammar}

theorem nthArguments_within (h : ArgumentsWithin selectors selectors') :
    (nthArguments selectors).Within (nthArguments selectors') := by
  cases selectors with
  | none =>
      cases selectors' with
      | none => rfl
      | some g =>
          -- the part behind `of` may be missing
          intro values start e he
          exact span_seq_pair.mpr ⟨e, he, span_optional_iff.mpr (Or.inl rfl)⟩
  | some g =>
      obtain ⟨g', rfl, wider⟩ := h g rfl
      dsimp only [nthArguments]
      gcongr

theorem eachWithin_toList_map (h : ArgumentsWithin compound compound') (name : String) :
    EachWithin (compound.toList.map (function name ·)) (compound'.toList.map (function name ·)) := by
  cases compound with
  | none => exact eachWithin_nil
  | some g =>
      obtain ⟨g', rfl, wider⟩ := h g rfl
      exact eachWithin_of_forall₂ (.cons (within_function wider) .nil)

theorem pseudoElement_within (h : ArgumentsWithin compound compound') :
    (pseudoElement compound).Within (pseudoElement compound') := by
  have slotted := eachWithin_toList_map h "slotted"
  have names := (EachWithin.refl [function "part" (atLeastOne ident)]).append
    (slotted.append (.refl [ident]))
  exact within_seq (.cons (.refl _) (.cons (.refl _) (.cons names.oneOf .nil)))

theorem pseudoClass_within (hs : ArgumentsWithin selectors selectors')
    (hr : ArgumentsWithin relative relative') :
    (pseudoClass selectors relative).Within (pseudoClass selectors' relative') := by
  have nth := nthArguments_within hs
  have having := eachWithin_toList_map hr "has"
  refine within_seq (.cons (.refl _) (.cons (.refl _) (.cons (EachWithin.oneOf ?_) .nil)))
  refine ((EachWithin.append ?plain ?taking).append having).append (.refl [ident])
  case plain =>
    apply eachWithin_of_forall₂
    gcongr
  case taking =>
    cases selectors with
    | none => exact eachWithin_nil
    | some g =>
        obtain ⟨g', rfl, wider⟩ := hs g rfl
        exact eachWithin_of_forall₂ (forall₂_within_map fun _ => within_function wider)

theorem level_within {inner inner' : Option Level}
    (h : ∀ l ∈ inner, ∃ m ∈ inner', l.Within m) : (level inner).Within (level inner') := by
  have arguments {part : Level → Grammar}
      (parts : ∀ l m : Level, l.Within m → (part l).Within (part m)) :
      ArgumentsWithin (inner.map part) (inner'.map part) := by
    intro a ha
    obtain ⟨l, hl, rfl⟩ := Option.map_eq_some_iff.mp ha
    obtain ⟨m, hm, wider⟩ := h l hl
    exact ⟨part m, Option.mem_map_of_mem part hm, parts l m wider⟩
  have element := pseudoElement_within (arguments fun _ _ => Level.Within.compound)
  have pseudo := pseudoClass_within (arguments fun _ _ => Level.Within.list)
    (arguments fun _ _ => Level.Within.relativeList)
  constructor <;> dsimp only [level] <;> gcongr

theorem nested_within_succ (k : Nat) : (nested k).Within (nested (k + 1)) := by
  induction k with
  | zero => exact level_within (by simp)
  | succ k ih =>
      apply level_within
      simpa using ih

/-! ## The height of a level -/

/-- The grammars of the level are no higher. -/
structure Level.AtMost (n : Nat) (l : Level) : Prop where
  compound : l.compound.height ≤ n
  complex : l.complex.height ≤ n
  list : l.list.height ≤ n
  relativeList : l.relativeList.height ≤ n

theorem height_pseudoElement {n : Nat} (h : ∀ g ∈ compound, g.height ≤ n) :
    (pseudoElement compound).height ≤ n + 1 := by
  cases compound <;> simp_all [pseudoElement, colon, ident, anyToken]

theorem height_pseudoClass {n : Nat} (hs : ∀ g ∈ selectors, g.height ≤ n)
    (hr : ∀ g ∈ relative, g.height ≤ n) : (pseudoClass selectors relative).height ≤ n + 1 := by
  have counting : anPlusB.height ≤ n := by simp [anPlusB, tokenThat, anyToken]
  cases selectors <;> cases relative <;>
    simp_all [pseudoClass, nthArguments, colon, ident, anyToken, word]

theorem level_atMost {inner : Option Level} {n : Nat} (h : ∀ l ∈ inner, l.AtMost n) :
    (level inner).AtMost (n + 1) := by
  have arguments {part : Level → Grammar} (parts : ∀ l : Level, l.AtMost n → (part l).height ≤ n) :
      ∀ g ∈ inner.map part, g.height ≤ n := by
    intro g hg
    obtain ⟨l, hl, rfl⟩ := Option.map_eq_some_iff.mp hg
    exact parts l (h l hl)
  have element := height_pseudoElement (arguments fun _ => Level.AtMost.compound)
  have pseudo := height_pseudoClass (arguments fun _ => Level.AtMost.list)
    (arguments fun _ => Level.AtMost.relativeList)
  have simple : (subclass inner).height ≤ n + 1 := by
    simpa [subclass, classSelector, idSelector, attributeSelector, ident, anyToken, tokenThat]
      using And.intro element pseudo
  have compound : (level inner).compound.height ≤ n + 1 := by
    simp [compound_level, simple, typeSelector, ident, anyToken]
  have combinators : combinator.height ≤ n + 1 := by simp [combinator]
  have complex : (level inner).complex.height ≤ n + 1 := by
    simp [complex_level, compound, combinators]
  have relative : (seq [optional combinator, (level inner).complex]).height ≤ n + 1 := by
    simp [complex, combinators]
  exact ⟨compound, complex, complex, relative⟩

theorem nested_atMost (k : Nat) : (nested k).AtMost (k + 1) := by
  induction k with
  | zero => exact level_atMost (by simp)
  | succ k ih =>
      apply level_atMost
      simpa using ih

/-! ## Nesting -/

/-- **Nesting is bounded, and more of it is no loss.** A selector of one depth is a selector of the
next one, and no value in it is deeper than one level more; so the selectors of style rules are no
deeper than one level more than the greatest depth. -/
theorem nested_bounded_mono :
    (∀ k (values : List Value),
      ((nested k).list.matchesAll values →
        (nested (k + 1)).list.matchesAll values ∧ ∀ v ∈ values, v.depth ≤ k + 1) ∧
      ((nested k).complex.matchesAll values →
        (nested (k + 1)).complex.matchesAll values ∧ ∀ v ∈ values, v.depth ≤ k + 1)) ∧
      ∀ values : List Value, list.matchesAll values →
        Value.depthAll values ≤ maxNesting + 1 := by
  constructor
  · intro k values
    have wider := nested_within_succ k
    have bound := nested_atMost k
    constructor
    · intro matched
      have shallow := Nat.le_trans (depthAll_le_height matched) bound.list
      exact ⟨wider.list.matchesAll matched, Value.depthAll_le_iff.mp shallow⟩
    · intro matched
      have shallow := Nat.le_trans (depthAll_le_height matched) bound.complex
      exact ⟨wider.complex.matchesAll matched, Value.depthAll_le_iff.mp shallow⟩
  · intro values matched
    exact Nat.le_trans (depthAll_le_height matched) (nested_atMost maxNesting).list

/-- `:not(:dir(ltr))` needs one level of nesting: its functions nest twice. It is a selector of the
next level as well. -/
theorem nested_bounded_mono_negation :
    let negation : List Value :=
      [.token .colon, .function "not" [.token .colon, .function "dir" [.token (.ident "ltr")]]]
    ¬(nested 0).list.matchesAll negation ∧ (nested 1).list.matchesAll negation ∧
      (nested 1).complex.matchesAll negation ∧ list.matchesAll negation ∧
      (nested 2).list.matchesAll negation ∧ (nested 2).complex.matchesAll negation ∧
      (∀ v ∈ negation, v.depth ≤ 2) ∧ Value.depthAll negation ≤ maxNesting + 1 := by
  intro negation
  have refused : ¬(nested 0).list.matchesAll negation := by decide +kernel
  have inList : (nested 1).list.matchesAll negation := by decide +kernel
  have single : (nested 1).complex.matchesAll negation := by decide +kernel
  have prelude : list.matchesAll negation := by decide +kernel
  obtain ⟨lists, complexes⟩ := nested_bounded_mono.1 1 negation
  obtain ⟨listed, shallow⟩ := lists inList
  exact ⟨refused, inList, single, prelude, listed, (complexes single).1, shallow,
    nested_bounded_mono.2 negation prelude⟩

end CssSieve.Selector
