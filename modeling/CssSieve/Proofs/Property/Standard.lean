import CssSieve.Proofs.Grammar.Primitives
import CssSieve.Proofs.Registry.Widening
import CssSieve.Property.Standard

/-!
# Standard properties from wider data types
-/

namespace CssSieve

open Grammar

namespace Property

variable {p q : Primitives} {g h : Grammar} {gs hs : List Grammar}

/-! ## Backgrounds, borders and outlines -/

@[gcongr]
theorem backgroundImage_within (within : p.Within q) :
    (backgroundImage p).Within (backgroundImage q) := by
  unfold backgroundImage
  gcongr

@[gcongr]
theorem backgroundSize_within (within : p.Within q) :
    (backgroundSize p).Within (backgroundSize q) := by
  unfold backgroundSize
  gcongr

@[gcongr]
theorem backgroundLayer_within (within : p.Within q) :
    (backgroundLayer p).Within (backgroundLayer q) := by
  unfold backgroundLayer
  gcongr

@[gcongr]
theorem backgrounds_within (within : p.Within q) :
    List.Forall₂ EntryWithin (backgrounds p) (backgrounds q) := by
  unfold backgrounds
  gcongr

@[gcongr]
theorem lineWidth_within (within : p.Within q) : (lineWidth p).Within (lineWidth q) := by
  unfold lineWidth
  gcongr

@[gcongr]
theorem borderOf_within (within : p.Within q) (color : g.Within h) :
    (borderOf p g).Within (borderOf q h) := by
  unfold borderOf
  gcongr

@[gcongr]
theorem boxShadowOf_within (within : p.Within q) (color : g.Within h) :
    (boxShadowOf p g).Within (boxShadowOf q h) := by
  unfold boxShadowOf
  gcongr

@[gcongr]
theorem borderSide_within {side : String} (within : p.Within q) :
    List.Forall₂ EntryWithin (borderSide p side) (borderSide q side) := by
  dsimp only [borderSide]
  gcongr

@[gcongr]
theorem borders_within (within : p.Within q) :
    List.Forall₂ EntryWithin (borders p) (borders q) := by
  dsimp only [borders]
  gcongr

@[gcongr]
theorem outlines_within (within : p.Within q) :
    List.Forall₂ EntryWithin (outlines p) (outlines q) := by
  dsimp only [outlines]
  gcongr

/-! ## Filters -/

@[gcongr]
theorem filterFunction_within (within : p.Within q) :
    (filterFunction p).Within (filterFunction q) := by
  dsimp only [filterFunction]
  gcongr

@[gcongr]
theorem effects_within (within : p.Within q) :
    List.Forall₂ EntryWithin (effects p) (effects q) := by
  unfold effects
  gcongr

/-! ## Boxes -/

@[gcongr]
theorem sizeOf_within {first : String} (within : p.Within q)
    (additions : List.Forall₂ Within gs hs) :
    (sizeOf p first gs).Within (sizeOf q first hs) := by
  unfold sizeOf
  gcongr

@[gcongr]
theorem sizes_within (within : p.Within q) (additions : List.Forall₂ Within gs hs) :
    List.Forall₂ EntryWithin (sizes p gs) (sizes q hs) := by
  dsimp only [sizes]
  gcongr

@[gcongr]
theorem boxSides_within {shorthand : String} (within : g.Within h) :
    List.Forall₂ EntryWithin (boxSides shorthand g) (boxSides shorthand h) := by
  unfold boxSides
  gcongr

@[gcongr]
theorem autoOrLength_within (within : p.Within q) : (autoOrLength p).Within (autoOrLength q) := by
  unfold autoOrLength
  gcongr

@[gcongr]
theorem boxes_within (within : p.Within q) : List.Forall₂ EntryWithin (boxes p) (boxes q) := by
  dsimp only [boxes]
  gcongr

@[gcongr]
theorem flexBasis_within (within : p.Within q) : (flexBasis p).Within (flexBasis q) := by
  unfold flexBasis
  gcongr

@[gcongr]
theorem flexBoxes_within (within : p.Within q) :
    List.Forall₂ EntryWithin (flexBoxes p) (flexBoxes q) := by
  dsimp only [flexBoxes]
  gcongr

/-! ## Fonts and text -/

@[gcongr]
theorem familyName_within (within : p.Within q) : (familyName p).Within (familyName q) := by
  unfold familyName
  gcongr

@[gcongr]
theorem fontFeatureSettings_within (within : p.Within q) :
    (fontFeatureSettings p).Within (fontFeatureSettings q) := by
  unfold fontFeatureSettings
  gcongr

@[gcongr]
theorem fontFamily_within (within : p.Within q) : (fontFamily p).Within (fontFamily q) := by
  dsimp only [fontFamily]
  gcongr

@[gcongr]
theorem fontSize_within (within : p.Within q) : (fontSize p).Within (fontSize q) := by
  unfold fontSize
  gcongr

@[gcongr]
theorem fontStyle_within (within : p.Within q) : (fontStyle p).Within (fontStyle q) := by
  unfold fontStyle
  gcongr

@[gcongr]
theorem fontStretch_within (within : p.Within q) : (fontStretch p).Within (fontStretch q) := by
  unfold fontStretch
  gcongr

@[gcongr]
theorem lineHeight_within (within : p.Within q) : (lineHeight p).Within (lineHeight q) := by
  unfold lineHeight
  gcongr

@[gcongr]
theorem fontShorthand_within (within : p.Within q) :
    (fontShorthand p).Within (fontShorthand q) := by
  unfold fontShorthand
  gcongr

@[gcongr]
theorem fonts_within (within : p.Within q) : List.Forall₂ EntryWithin (fonts p) (fonts q) := by
  unfold fonts
  gcongr

@[gcongr]
theorem textLayout_within (within : p.Within q) :
    List.Forall₂ EntryWithin (textLayout p) (textLayout q) := by
  dsimp only [textLayout]
  gcongr

@[gcongr]
theorem textDecoration_within (within : p.Within q) :
    List.Forall₂ EntryWithin (textDecoration p) (textDecoration q) := by
  dsimp only [textDecoration]
  gcongr

@[gcongr]
theorem listStyles_within (within : p.Within q) :
    List.Forall₂ EntryWithin (listStyles p) (listStyles q) := by
  dsimp only [listStyles]
  gcongr

@[gcongr]
theorem generatedContent_within (within : p.Within q) :
    List.Forall₂ EntryWithin (generatedContent p) (generatedContent q) := by
  unfold generatedContent
  gcongr

/-! ## Transforms, transitions and animations -/

@[gcongr]
theorem rotation_within (within : p.Within q) : (rotation p).Within (rotation q) := by
  unfold rotation
  gcongr

@[gcongr]
theorem planeFunctions_within (within : p.Within q) :
    List.Forall₂ Within (planeFunctions p) (planeFunctions q) := by
  dsimp only [planeFunctions]
  gcongr

@[gcongr]
theorem spaceFunctions_within (within : p.Within q) :
    List.Forall₂ Within (spaceFunctions p) (spaceFunctions q) := by
  dsimp only [spaceFunctions]
  gcongr

@[gcongr]
theorem transformFunctions_within {inSpace : Bool} (within : p.Within q) :
    List.Forall₂ Within (transformFunctions p inSpace) (transformFunctions q inSpace) := by
  unfold transformFunctions
  cases inSpace with
  | false => exact forall₂_append (planeFunctions_within within) .nil
  | true => exact forall₂_append (planeFunctions_within within) (spaceFunctions_within within)

@[gcongr]
theorem transform_within {inSpace : Bool} (within : p.Within q) :
    (transform p inSpace).Within (transform q inSpace) := by
  unfold transform
  gcongr

@[gcongr]
theorem transforms_within (within : p.Within q) :
    List.Forall₂ EntryWithin (transforms p) (transforms q) := by
  unfold transforms
  gcongr

@[gcongr]
theorem transitions_within (within : p.Within q) :
    List.Forall₂ EntryWithin (transitions p) (transitions q) := by
  dsimp only [transitions]
  gcongr

@[gcongr]
theorem animations_within (within : p.Within q) :
    List.Forall₂ EntryWithin (animations p) (animations q) := by
  dsimp only [animations]
  gcongr

/-! ## The whole registry -/

@[gcongr]
theorem standardEntries_within (within : p.Within q) :
    List.Forall₂ EntryWithin (standardEntries p) (standardEntries q) := by
  unfold standardEntries
  gcongr

/-! ## Names

The names are the same whatever the data types are, so they are looked at for the simplest ones. -/

theorem names_standardEntries (p : Primitives) :
    (standardEntries p).map (·.1) = (standardEntries .nothing).map (·.1) :=
  (names_eq_of_within (standardEntries_within (Primitives.nothing_within p))).symm

theorem lower_name_of_mem {e : String × Grammar} (he : e ∈ standardEntries p) :
    Text.lower e.1 = e.1 := by
  have small : ((standardEntries .nothing).map (·.1)).all Text.isSmall = true := by
    decide +kernel
  apply Text.lower_eq_self_of_isSmall
  apply List.all_eq_true.mp small
  rw [← names_standardEntries p]
  exact List.mem_map_of_mem he

/-- No property is listed twice. -/
theorem nodup_standardEntries (p : Primitives) :
    ((standardEntries p).map (Text.lower ·.1)).Nodup := by
  have as_listed : (standardEntries p).map (Text.lower ·.1) = (standardEntries p).map (·.1) :=
    List.map_congr_left fun e he => lower_name_of_mem he
  rw [as_listed, names_standardEntries]
  exact Text.nodup_of_fingerprints (by decide +kernel)

theorem get?_standard_of_mem {name : String} (h : (name, g) ∈ standardEntries p) :
    (standard p).get? name = some g :=
  NameTable.get?_ofList_of_mem (nodup_standardEntries p) h

theorem get?_standard_eq_none {name : String} (lowered : Text.lower name = name)
    (h : name ∉ (standardEntries .nothing).map (·.1)) : (standard p).get? name = none := by
  refine (NameTable.get?_insertAll_of_not_mem ?_).trans (NameTable.get?_empty name)
  intro e he same
  rw [lower_name_of_mem he, lowered] at same
  apply h
  rw [← names_standardEntries p, ← same]
  exact List.mem_map_of_mem he

end Property

end CssSieve
