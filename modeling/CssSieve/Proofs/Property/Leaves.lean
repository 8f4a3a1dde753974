import CssSieve.Proofs.Grammar.Leaves
import CssSieve.Proofs.Property.Extended

/-!
# What properties are made of

The grammars of properties are put together from the basic data types and a few kinds of leaves. So
whatever holds of those leaves holds of all leaves of the standard and of the extended properties,
extensions that fail included: `madeOf_standard`, `madeOf_extended`. The descriptors of fonts have
one leaf more, since the pieces of a range of code points have to touch.
-/

namespace CssSieve

open Grammar

/-! ## Registries and extensions -/

namespace Registry

/-- The grammars of all properties are made of leaves with the property. -/
structure MadeOf (ok : Grammar → Prop) (r : Registry) : Prop where
  leaves : ∀ name, ∀ g ∈ r.get? name, g.Leaves ok

variable {ok : Grammar → Prop} {r s : Registry} {es : List (String × Grammar)}

theorem MadeOf.insertAll (h : r.MadeOf ok) (entries : ∀ e ∈ es, e.2.Leaves ok) :
    MadeOf ok (r.insertAll es) := by
  constructor
  intro name g hg
  rw [NameTable.get?_insertAll, Option.mem_def, Option.or_eq_some_iff] at hg
  rcases hg with hg | ⟨-, hg⟩
  · obtain ⟨e, found, rfl⟩ := Option.map_eq_some_iff.mp hg
    exact entries e (List.mem_reverse.mp (List.mem_of_find?_eq_some found))
  · exact h.leaves name g hg

theorem madeOf_ofList (entries : ∀ e ∈ es, e.2.Leaves ok) : MadeOf ok (.ofList es) := by
  have nothing : MadeOf ok ∅ := by
    constructor
    intro name g hg
    cases hg
  exact nothing.insertAll entries

theorem MadeOf.add (h : r.MadeOf ok) (entries : ∀ e ∈ es, e.2.Leaves ok)
    (added : r.add es = .ok () s) : s.MadeOf ok := by
  obtain ⟨-, rfl⟩ := Registry.add_eq_ok_iff.mp added
  exact h.insertAll entries

end Registry

/-- The extension puts in nothing but such grammars. -/
def Extension.Puts (ok : Grammar → Prop) (p : Primitives) (e : Extension) : Prop :=
  ∀ r s : Registry, r.MadeOf ok → e r p = .ok () s → s.MadeOf ok

variable {ok : Grammar → Prop} {p : Primitives}

theorem Registry.MadeOf.extendAll {r : Registry} (h : r.MadeOf ok)
    {extensions : List (String × Extension)} (puts : ∀ e ∈ extensions, e.2.Puts ok p) :
    Registry.MadeOf ok (r.extendAll p extensions).1 :=
  extendAll_induction h puts

theorem Extension.puts_of_insertAll {entries : Primitives → List (String × Grammar)}
    (made : ∀ e ∈ entries p, e.2.Leaves ok) :
    Extension.Puts ok p fun r p => .ok () (r.insertAll (entries p)) := by
  intro r s h applied
  cases applied
  exact h.insertAll made

theorem Extension.puts_of_add {entries : Primitives → List (String × Grammar)}
    (made : ∀ e ∈ entries p, e.2.Leaves ok) :
    Extension.Puts ok p fun r p => r.add (entries p) := by
  intro r s h applied
  exact h.add made applied

namespace Property

variable [Usual ok] [p.MadeOf ok]

/-! ## The standard properties -/

theorem leaves_backgrounds : ∀ e ∈ backgrounds p, e.2.Leaves ok := by
  simp [backgrounds, backgroundImage, repeatStyle, attachment, backgroundSize, boxKeywords,
    backgroundLayer]

theorem leaves_boxShadowOf {color : Grammar} (hc : color.Leaves ok) :
    (boxShadowOf p color).Leaves ok := by
  simp [boxShadowOf, hc]

theorem leaves_borders : ∀ e ∈ borders p, e.2.Leaves ok := by
  simp [borders, borderOf, borderSide, lineStyle, lineWidth]

theorem leaves_outlines : ∀ e ∈ outlines p, e.2.Leaves ok := by
  simp [outlines, lineStyle, lineWidth, leaves_boxShadowOf]

theorem leaves_effects : ∀ e ∈ effects p, e.2.Leaves ok := by
  simp [effects, filterFunction]

theorem leaves_sizes {additions : List Grammar} (ha : ∀ g ∈ additions, g.Leaves ok) :
    ∀ e ∈ sizes p additions, e.2.Leaves ok := by
  simpa [sizes, sizeOf] using ha

theorem leaves_boxes : ∀ e ∈ boxes p, e.2.Leaves ok := by
  simp [boxes, sizes, sizeOf, autoOrLength, boxSides]

theorem leaves_flexBoxes : ∀ e ∈ flexBoxes p, e.2.Leaves ok := by
  simp [flexBoxes, flexDirection, flexWrap, flexBasis, contentPosition, distribution, baseline,
    selfPosition]

theorem leaves_listStyles : ∀ e ∈ listStyles p, e.2.Leaves ok := by
  simp [listStyles]

theorem leaves_fonts : ∀ e ∈ fonts p, e.2.Leaves ok := by
  simp [fonts, fontFamily, familyName, fontSize, fontStyle, fontWeight, fontWeightAbsolute,
    fontStretch, fontStretchKeywords, fontVariant, fontFeatureSettings, lineHeight, fontShorthand]

theorem leaves_textLayout : ∀ e ∈ textLayout p, e.2.Leaves ok := by
  simp [textLayout]

theorem leaves_textDecoration : ∀ e ∈ textDecoration p, e.2.Leaves ok := by
  simp [textDecoration]

theorem leaves_generatedContent : ∀ e ∈ generatedContent p, e.2.Leaves ok := by
  simp [generatedContent]

theorem leaves_transform (inSpace : Bool) : (transform p inSpace).Leaves ok := by
  cases inSpace <;> simp [transform, transformFunctions, planeFunctions, spaceFunctions, rotation]

theorem leaves_transforms : ∀ e ∈ transforms p, e.2.Leaves ok := by
  simp [transforms, leaves_transform]

theorem leaves_transitions : ∀ e ∈ transitions p, e.2.Leaves ok := by
  simp [transitions]

theorem leaves_animations : ∀ e ∈ animations p, e.2.Leaves ok := by
  simp [animations]

theorem leaves_standardEntries : ∀ e ∈ standardEntries p, e.2.Leaves ok := by
  simp only [standardEntries, List.forall_mem_append, and_assoc]
  exact ⟨leaves_backgrounds, leaves_borders, leaves_outlines, leaves_effects, leaves_boxes,
    leaves_flexBoxes, leaves_listStyles, leaves_fonts, leaves_textLayout, leaves_textDecoration,
    leaves_generatedContent, leaves_transforms, leaves_transitions, leaves_animations⟩

theorem madeOf_standard : Registry.MadeOf ok (standard p) :=
  Registry.madeOf_ofList leaves_standardEntries

/-! ## The extended properties -/

theorem puts_borderBackground : Extension.Puts ok p borderBackground := by
  apply Extension.puts_of_insertAll
  simp [boxKeywords, lineStyle, lineWidth, colorOrReference, leaves_boxShadowOf]

theorem puts_sizingFunctions : Extension.Puts ok p sizingFunctions := by
  apply Extension.puts_of_insertAll
  apply leaves_sizes
  simp

theorem puts_spaceTransforms : Extension.Puts ok p spaceTransforms := by
  apply Extension.puts_of_insertAll
  simp [leaves_transform]

omit [Usual ok] [p.MadeOf ok] in
/-- The filter that is looked up is one of the grammars there. -/
theorem puts_backdropFilter : Extension.Puts ok p backdropFilter := by
  intro r s h applied
  rw [backdropFilter, Registry.require] at applied
  cases found : r.get? "filter" with
  | none =>
      rw [found] at applied
      cases applied
  | some filter =>
      rw [found] at applied
      have filterLeaves := h.leaves "filter" filter found
      exact h.add (by simp [filterLeaves]) applied

theorem puts_templateExtensions : ∀ e ∈ templateExtensions, e.2.Puts ok p := by
  simp only [templateExtensions, List.forall_mem_cons, List.not_mem_nil, false_imp_iff,
    implies_true, and_true]
  exact ⟨puts_borderBackground, puts_sizingFunctions, puts_spaceTransforms,
    Extension.puts_of_insertAll (by simp), Extension.puts_of_add (by simp),
    Extension.puts_of_add (by simp), Extension.puts_of_add (by simp),
    Extension.puts_of_add (by simp), Extension.puts_of_add (by simp),
    Extension.puts_of_add (by simp [autoOrLength]), puts_backdropFilter,
    Extension.puts_of_add (by simp)⟩

theorem madeOf_extended : Registry.MadeOf ok (extended p) := by
  rw [extended_unfold]
  beta_reduce
  rw [extendedWithWarnings]
  exact Registry.MadeOf.extendAll madeOf_standard puts_templateExtensions

theorem leaves_ordinaryValue : (ordinaryValue p).Leaves ok := by
  simp [ordinaryValue]

theorem leaves_referenceAnywhere : (referenceAnywhere p).Leaves ok := by
  simp [referenceAnywhere, referenceWithFallback, leaves_ordinaryValue]

/-! ## Descriptors of fonts -/

theorem leaves_fontFaceDescriptors (touches : ok noWhitespace) :
    ∀ e ∈ fontFaceDescriptors p, e.2.Leaves ok := by
  have touches : noWhitespace.Leaves ok := touches
  simp [fontFaceDescriptors, familyName, fontSource, fontWeightAbsolute, fontStretchKeywords,
    unicodeRange, fontVariant, fontFeatureSettings, touches]

theorem madeOf_fontFace (touches : ok noWhitespace) : Registry.MadeOf ok (fontFace p) :=
  Registry.madeOf_ofList (leaves_fontFaceDescriptors touches)

theorem puts_fontMetricOverrides : Extension.Puts ok p fontMetricOverrides := by
  apply Extension.puts_of_insertAll
  simp

theorem madeOf_extendedFontFace (touches : ok noWhitespace) :
    Registry.MadeOf ok (extendedFontFace p) := by
  apply (madeOf_fontFace touches).extendAll
  intro e he
  obtain rfl := List.mem_singleton.mp he
  exact puts_fontMetricOverrides

end Property

end CssSieve
