import CssSieve.Policy.Options
import CssSieve.Proofs.Policy.Opening

/-!
# Policies put together from options

A policy knows an at-rule only if its options name it: it is one of the four standard at-rules or
one of those added. So a policy is `Standard` when nothing is added that is checked by a function
of the host's own (`standard_build`). `standardOnly` is what the options say with the four standard
at-rules and no other; `get?_standardOnly` says which those are, and `admits_standardOnly` what they
require.
-/

namespace CssSieve

theorem NameTable.exists_of_get?_ofList {α : Type} {es : List (String × α)} {name : String}
    {v : α} (h : (NameTable.ofList es).get? name = some v) :
    ∃ e ∈ es, Text.lower e.1 = Text.lower name ∧ e.2 = v := by
  rw [ofList, get?_insertAll, get?_empty, Option.or_none] at h
  obtain ⟨e, found, same⟩ := Option.map_eq_some_iff.mp h
  refine ⟨e, List.mem_reverse.mp (List.mem_of_find?_eq_some found), ?_, same⟩
  simpa using List.find?_some found

namespace PolicyOptions

theorem standard_of_mem {o : PolicyOptions} {e : String × AtRulePolicy} (h : e ∈ o.standard) :
    e.2.Standard := by
  simp only [standard, List.mem_cons, List.not_mem_nil, or_false] at h
  rcases h with rfl | rfl | rfl | rfl <;> trivial

theorem standard_build {o : PolicyOptions} (added : ∀ e ∈ o.atRules, e.2.Standard) :
    o.build.Standard := by
  intro name known found
  obtain ⟨e, he, -, rfl⟩ := NameTable.exists_of_get?_ofList found
  rcases List.mem_append.mp he with he | he
  · split at he
    · exact standard_of_mem he
    · simp at he
  · exact added e he

/-- The options with the four standard at-rules and no other. -/
def standardOnly (o : PolicyOptions) : PolicyOptions :=
  { o with standardAtRules := true, atRules := [] }

theorem standard_standardOnly (o : PolicyOptions) : o.standardOnly.build.Standard :=
  standard_build fun _ h => by simp [standardOnly] at h

theorem lower_fontFace : Text.lower "font-face" = "font-face" := by decide +kernel

theorem lower_media : Text.lower "media" = "media" := by decide +kernel

theorem lower_keyframes : Text.lower "keyframes" = "keyframes" := by decide +kernel

theorem lower_page : Text.lower "page" = "page" := by decide +kernel

/-- The standard at-rules are known by their names in any case, and nothing else is known. -/
theorem get?_standardOnly {o : PolicyOptions} {name : String} {known : AtRulePolicy} :
    o.standardOnly.build.atRules.get? name = some known ↔
      (Text.lower name, known) ∈ o.standardOnly.standard := by
  have table : o.standardOnly.build.atRules = NameTable.ofList o.standardOnly.standard := by
    simp [build, standardOnly]
  rw [table]
  constructor
  · intro found
    obtain ⟨e, he, same, rfl⟩ := NameTable.exists_of_get?_ofList found
    have lowered : Text.lower e.1 = e.1 := by
      simp only [standard, List.mem_cons, List.not_mem_nil, or_false] at he
      rcases he with rfl | rfl | rfl | rfl
      · exact lower_fontFace
      · exact lower_media
      · exact lower_keyframes
      · exact lower_page
    rwa [← same, lowered]
  · intro he
    simp only [standard, List.mem_cons, List.not_mem_nil, or_false, Prod.mk.injEq] at he
    rcases he with ⟨h, rfl⟩ | ⟨h, rfl⟩ | ⟨h, rfl⟩ | ⟨h, rfl⟩ <;>
      simp [NameTable.ofList, NameTable.get?_insertAll, standard, h, lower_fontFace, lower_media,
        lower_keyframes, lower_page]

/-- The standard at-rules one by one: what each requires of its prelude and of its block. -/
theorem admits_standardOnly {o : PolicyOptions} {r : AtRule} :
    o.standardOnly.build.Admits .sheet (.at r) ↔
      Text.lower r.name = "font-face" ∧ (∀ v ∈ r.prelude, v.isWhitespace) ∧
          r.block.declarations?.isSome ∨
        Text.lower r.name = "media" ∧ (MediaQuery.list o.primitives).matchesAll r.prelude ∧
          r.block.rules?.isSome ∨
        Text.lower r.name = "keyframes" ∧
          (AtRulePolicy.keyframesName o.primitives).matchesAll r.prelude ∧
          r.block.rules?.isSome ∨
        Text.lower r.name = "page" ∧ Selector.pageList.matchesAll r.prelude ∧
          r.block.declarations?.isSome := by
  have listed : o.standardOnly.build.Admits .sheet (.at r) ↔
      ∃ known, (Text.lower r.name, known) ∈ o.standardOnly.standard ∧
        known.PreludeFits r.prelude ∧ (known.contents? r.block).isSome := by
    simp only [Policy.Admits, Option.mem_def, get?_standardOnly, AtRulePolicy.blockFits_iff]
  rw [listed]
  simp only [standard, List.mem_cons, Prod.mk.injEq, List.not_mem_nil, or_false, or_and_right,
    exists_or, and_assoc, exists_and_left, exists_eq_left]
  simp [AtRulePolicy.fontFaceOf, AtRulePolicy.mediaOf, AtRulePolicy.keyframesOf,
    AtRulePolicy.pageOf, AtRulePolicy.PreludeFits, AtRulePolicy.contents?, standardOnly]

theorem lower_mem_of_declarations {o : PolicyOptions} {name : String} {known : AtRulePolicy}
    (found : o.standardOnly.build.atRules.get? name = some known) {block : AtBlock}
    {own : DeclarationPolicy} {ds : List Declaration}
    (held : known.contents? block = some (.declarations own ds)) :
    Text.lower name ∈ ["font-face", "page"] := by
  have listed := get?_standardOnly.mp found
  simp only [standard, List.mem_cons, List.not_mem_nil, or_false, Prod.mk.injEq] at listed
  rcases listed with ⟨h, rfl⟩ | ⟨h, rfl⟩ | ⟨h, rfl⟩ | ⟨h, rfl⟩
  · simp [h]
  · simp [AtRulePolicy.mediaOf, AtRulePolicy.contents?] at held
  · simp [AtRulePolicy.keyframesOf, AtRulePolicy.contents?] at held
  · simp [h]

theorem lower_mem_of_rules {o : PolicyOptions} {name : String} {known : AtRulePolicy}
    (found : o.standardOnly.build.atRules.get? name = some known) {block : AtBlock}
    {scope : Scope} {rules : List Rule} (held : known.contents? block = some (.rules scope rules)) :
    Text.lower name ∈ ["media", "keyframes"] := by
  have listed := get?_standardOnly.mp found
  simp only [standard, List.mem_cons, List.not_mem_nil, or_false, Prod.mk.injEq] at listed
  rcases listed with ⟨h, rfl⟩ | ⟨h, rfl⟩ | ⟨h, rfl⟩ | ⟨h, rfl⟩
  · simp [AtRulePolicy.fontFaceOf, AtRulePolicy.contents?] at held
  · simp [h]
  · simp [h]
  · simp [AtRulePolicy.pageOf, AtRulePolicy.contents?] at held

end PolicyOptions

end CssSieve
