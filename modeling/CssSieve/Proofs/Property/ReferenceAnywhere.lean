import CssSieve.Proofs.Grammar.Piecewise
import CssSieve.Proofs.Property.Leaves

/-!
# References anywhere are found value by value

Where a reference to a variable may stand anywhere, each value is judged by itself. Some of the
ordinary values are matched several at a time, as a position with its words and offsets is, but then
each of them is an ordinary value as well.
-/

namespace CssSieve

open Grammar

namespace Grammar

theorem takes_boxPosition {ok : Value → Prop} {lengthPercentage : Grammar}
    (words : ∀ ws ⊆ ["left", "center", "right", "top", "bottom"], (keyword ws).Takes ok)
    (lp : lengthPercentage.Takes ok) : (boxPosition lengthPercentage).Takes ok := by
  simp [boxPosition, word, lp, words]

/-- The words and the offsets of a position are positions, each by itself. -/
theorem piecewise_boxPosition {lengthPercentage : Grammar} (lp : lengthPercentage.Piecewise) :
    (boxPosition lengthPercentage).Piecewise := by
  let one := oneOf [keyword ["left", "center", "right", "top", "bottom"], lengthPercentage]
  have one_within : one.Within (boxPosition lengthPercentage) :=
    within_oneOf_of_mem (by simp [one]) (.refl one)
  apply takes_boxPosition
  · intro words known
    have word_within : (keyword words).Within one :=
      within_oneOf_of_mem List.mem_cons_self (within_keyword known)
    exact (piecewise_keyword words).takes_of_within (word_within.trans one_within)
  · exact lp.takes_of_within ((within_oneOf_of_mem (by simp) (.refl _)).trans one_within)

theorem piecewise_imageOf {url color lengthPercentage angle zero position : Grammar}
    (hu : url.Piecewise) :
    (imageOf url color lengthPercentage angle zero position).Piecewise := by
  apply piecewise_oneOf
  simp [hu]

theorem piecewise_easingOf (integer number comma : Grammar) :
    (easingOf integer number comma).Piecewise := by
  apply piecewise_oneOf
  simp

end Grammar

namespace Property

/-- Ordinary values are judged one by one, in whatever way colors are written. -/
theorem piecewise_ordinaryValue_of_colors {hex : Grammar} {functions : List Grammar}
    (hh : hex.Piecewise) (hf : ∀ g ∈ functions, g.Piecewise) :
    (ordinaryValue { colorHex := hex, colorFunctions := functions }).Piecewise := by
  have length : (oneOf [dimension lengthUnits, tokenThat .number isZero]).Piecewise := by
    simp [dimension, tokenThat]
  have lengthPercentage : (oneOf [oneOf [dimension lengthUnits, tokenThat .number isZero],
      anyToken .percentage]).Piecewise := by
    simp [length, anyToken]
  have url : (oneOf [anyToken .url, function "url" (anyToken .string)]).Piecewise := by
    simp [anyToken]
  have color : (oneOf (keyword colorNames :: hex :: functions)).Piecewise := by
    apply piecewise_oneOf
    simpa [hh] using hf
  have position := piecewise_boxPosition lengthPercentage
  apply piecewise_oneOf
  simp only [List.forall_mem_cons, List.not_mem_nil, false_imp_iff, implies_true, and_true]
  exact ⟨color, piecewise_imageOf url, length, piecewise_token _ _, piecewise_token _ _,
    piecewise_token _ _, piecewise_token _ _, piecewise_token _ _, piecewise_token _ _, position,
    piecewise_easingOf _ _ _, piecewise_token _ _, piecewise_keyword _, piecewise_keyword _⟩

variable {p : Primitives} {v : Value} {values : List Value}

theorem piecewise_ordinaryValue (usual : p = .standard ∨ p = .extended) :
    (ordinaryValue p).Piecewise := by
  rcases usual with rfl | rfl
  · exact piecewise_ordinaryValue_of_colors (piecewise_token _ _) (by simp [plainColorFunctions])
  · exact piecewise_ordinaryValue_of_colors (piecewise_token _ _)
      (by simp [variableColorFunctions])

/-- A function `var` with the name of a custom property, and behind a comma at most one value to
fall back on. -/
def IsReference (p : Primitives) (v : Value) : Prop :=
  ∃ vs ∈ argumentsOf? "var" v, ∃ name rest, solid vs = name :: rest ∧ acceptsCustomProperty name ∧
    (rest = [] ∨ ∃ comma fallback, rest = comma :: fallback ∧ comma.isComma ∧
      (oneOf [ordinaryValue p, p.reference]).matchesAll fallback)

theorem acceptsToken_comma : acceptsToken .comma none v = v.isComma := by
  cases v with
  | token t => cases t <;> rfl
  | function | block => rfl

section

variable [p.MadeOf NotSpace] (comma : p.comma = anyToken .comma)
include comma

/-- What is inside of a reference. -/
theorem matchesAll_reference_inside (values : List Value) :
    (seq [customProperty,
        optional (seq [p.comma, oneOf [ordinaryValue p, p.reference]])]).matchesAll values ↔
      ∃ name rest, solid values = name :: rest ∧ acceptsCustomProperty name ∧
        (rest = [] ∨ ∃ comma fallback, rest = comma :: fallback ∧ comma.isComma ∧
          (oneOf [ordinaryValue p, p.reference]).matchesAll fallback) := by
  have free : SpaceFree
      (seq [customProperty, optional (seq [p.comma, oneOf [ordinaryValue p, p.reference]])]) := by
    simp [SpaceFree, leaves_ordinaryValue]
  have none_white := not_isWhitespace_of_mem_solid values
  rw [← free.matchesAll_solid, matchesAll_seq_one_iff none_white customProperty_finds]
  refine exists_congr fun name => exists_congr fun rest => and_congr_right fun split => ?_
  have none_behind : ∀ v ∈ rest, ¬v.isWhitespace :=
    fun v listed => none_white v (split ▸ List.mem_cons_of_mem name listed)
  rw [matchesAll_optional_iff none_behind, comma, anyToken,
    matchesAll_seq_one_iff none_behind (token_finds .comma none)]
  simp only [acceptsToken_comma]

theorem isReference_iff (solid_v : ¬v.isWhitespace) :
    IsReference p v ↔ (referenceWithFallback p).matchesAll [v] := by
  rw [referenceWithFallback, matchesAll_singleton_iff (function_finds _ _) solid_v]
  simp only [matchesAll_reference_inside comma, IsReference]

/-- With ordinary values that are judged one by one, a run of them with a reference is judged so. -/
theorem matchesAll_referenceAnywhere_iff (ordinary : (ordinaryValue p).Piecewise)
    (wide : p.wideKeywords = keyword wideWords) (values : List Value) :
    (referenceAnywhere p).matchesAll values ↔
      (∃ v, solid values = [v] ∧ acceptsKeyword wideWords v) ∨
        (∀ v ∈ solid values, (ordinaryValue p).matchesAll [v] ∨ IsReference p v) ∧
          ∃ v ∈ solid values, IsReference p v := by
  let one := oneOf [referenceWithFallback p, ordinaryValue p]
  have free : (referenceAnywhere p).SpaceFree := leaves_referenceAnywhere
  have none_white := not_isWhitespace_of_mem_solid values
  have reference : (referenceWithFallback p).Piecewise := piecewise_function "var"
  have piecewise : one.Piecewise := piecewise_oneOf (by simp [reference, ordinary])
  have within : (referenceWithFallback p).Within one := within_oneOf_of_mem (by simp) (.refl _)
  have run := piecewise.matchesAll_around_iff reference within (function_finds "var" _) none_white
  have unfolded : referenceAnywhere p =
      oneOf [p.wideKeywords, seq [many one, referenceWithFallback p, many one]] := rfl
  have listed_iff {v : Value} (listed : v ∈ solid values) :
      (referenceWithFallback p).matchesAll [v] ↔ IsReference p v :=
    (isReference_iff comma (none_white v listed)).symm
  rw [← free.matchesAll_solid, unfolded, matchesAll_oneOf_iff]
  simp only [List.mem_cons, List.not_mem_nil, or_false, exists_eq_or_imp, exists_eq_left]
  refine or_congr ?_ (run.trans (and_congr ?_ ?_))
  · rw [wide]
    exact matchesAll_one_iff none_white (keyword_finds wideWords)
  · refine forall_congr' fun v => forall_congr' fun listed => ?_
    rw [matchesAll_oneOf_iff, ← listed_iff listed]
    simp [or_comm]
  · exact exists_congr fun v => and_congr_right listed_iff

end

/-- **References anywhere are found value by value.** Where no property is asked, a word for every
property is accepted alone, and so is a list of values of which each is accepted by itself, as an
ordinary value or as a reference, and at least one is a reference. So the order of the values makes
no difference. -/
theorem referenceAnywhere_by_value (usual : p = .standard ∨ p = .extended) (values : List Value) :
    ((referenceAnywhere p).matchesAll values ↔
        (∃ v, solid values = [v] ∧ acceptsKeyword wideWords v) ∨
          (∀ v ∈ solid values, (ordinaryValue p).matchesAll [v] ∨ IsReference p v) ∧
            ∃ v ∈ solid values, IsReference p v) ∧
      ∀ others, values.Perm others →
        (referenceAnywhere p).matchesAll others = (referenceAnywhere p).matchesAll values := by
  have made : p.MadeOf NotSpace := by rcases usual with rfl | rfl <;> infer_instance
  have comma : p.comma = anyToken .comma := by rcases usual with rfl | rfl <;> rfl
  have wide : p.wideKeywords = keyword wideWords := by rcases usual with rfl | rfl <;> rfl
  have judged := matchesAll_referenceAnywhere_iff comma (piecewise_ordinaryValue usual) wide
  refine ⟨judged values, ?_⟩
  intro others perm
  have reordered : (solid others).Perm (solid values) := (perm.filter _).symm
  have single (v : Value) : solid others = [v] ↔ solid values = [v] := by
    rw [← List.perm_singleton, ← List.perm_singleton]
    exact ⟨reordered.symm.trans, reordered.trans⟩
  rw [Bool.eq_iff_iff, judged, judged]
  simp only [single, reordered.mem_iff]

theorem referenceAnywhere_by_value_border :
    let name : Value := .token (.ident "--kind")
    let reference : Value := .function "var" [name, .token .whitespace]
    let values : List Value := [.token (.ident "solid"), .token .whitespace, reference]
    (Primitives.extended = .standard ∨ Primitives.extended = .extended) ∧
      (referenceAnywhere .extended).matchesAll values ∧ values.Perm values.reverse ∧
      (referenceAnywhere .extended).matchesAll values.reverse := by
  intro name reference values
  obtain ⟨judged, reordered⟩ := referenceAnywhere_by_value (Or.inr rfl) values
  have inside : argumentsOf? "var" reference = some [name, .token .whitespace] := by
    decide +kernel
  have referring : IsReference .extended reference :=
    ⟨_, inside, name, [], rfl, by decide +kernel, Or.inl rfl⟩
  have ordinary : (ordinaryValue .extended).matchesAll [.token (.ident "solid")] :=
    matchesAll_oneOf_iff.mpr
      ⟨keyword ["solid", "double", "dotted", "dashed", "wavy"], by simp, by decide +kernel⟩
  have split : solid values = [.token (.ident "solid"), reference] := rfl
  have accepted : (referenceAnywhere .extended).matchesAll values :=
    judged.mpr (Or.inr (by simp [split, ordinary, referring]))
  have perm : values.Perm values.reverse := (List.reverse_perm values).symm
  exact ⟨Or.inr rfl, accepted, perm, (reordered _ perm).trans accepted⟩

end Property

end CssSieve
