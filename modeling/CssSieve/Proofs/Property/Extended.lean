import CssSieve.Property.Extended
import CssSieve.Proofs.Property.Standard

/-!
# The extended properties are wider

The extensions come in two kinds. Four of them put in grammars, whatever was there before
(`replacements`), and the others add properties that are new. So an extended registry accepts
whatever the standard one does, if each grammar put in is wider than the one it replaces. All are
but two: the boxes of a background are a list in the standard registry and a single box in the
extended one.
-/

namespace CssSieve

open Grammar

namespace Property

/-- The grammars that extensions put in. -/
def replacements (p : Primitives) : List (String × Grammar) :=
  let bound :=
    oneOf
      [p.length, p.lengthPercentage, p.frequency, p.angle, p.anglePercentage, p.time, p.number,
        p.integer]
  [("background-origin", boxKeywords),
    ("background-clip", oneOf [boxKeywords, keyword ["text", "border-area"]]),
    ("border", someOf [lineStyle, lineWidth p, colorOrReference p]),
    ("box-shadow", boxShadowOf p (colorOrReference p))]
  ++ sizes p [word "fit-content", function "clamp" (commaBetween bound 3 3)]
  ++ [("transform", transform p true), ("transform-style", keyword ["flat", "preserve-3d"])]
  ++ [("transition-behavior", keyword ["normal", "allow-discrete"])]

/-- The properties for which a list was replaced by a single item. -/
def narrowed : List String := ["background-origin", "background-clip"]

/-- The extensions that only add properties. -/
def additions : List (String × Extension) := templateExtensions.drop 4

variable {p : Primitives}

-- stated of the functions, since comparing them at an argument evaluates the whole table
theorem extended_unfold : extended = fun p => (extendedWithWarnings p).1 := rfl

theorem extended_eq (p : Primitives) :
    extended p =
      (Registry.extendAll ((standard p).insertAll (replacements p)) p additions).1 := by
  rw [extended_unfold]
  beta_reduce
  rw [extendedWithWarnings, templateExtensions, Registry.extendAll_cons_of_ok rfl,
    Registry.extendAll_cons_of_ok rfl, Registry.extendAll_cons_of_ok rfl,
    Registry.extendAll_cons_of_ok rfl]
  simp only [replacements, NameTable.insertAll_append, additions, templateExtensions,
    List.drop_succ_cons, List.drop_zero]

/-! ## Additions -/

/-- The one extension that looks something up before it adds anything. -/
theorem keeps_backdropFilter {r s : Registry} (applied : backdropFilter r p = .ok () s) :
    Registry.Keeps r s := by
  unfold backdropFilter at applied
  cases required : r.require "filter" with
  | error missing =>
      rw [required] at applied
      cases applied
  | ok filter =>
      rw [required] at applied
      exact Registry.keeps_add applied

theorem keeps_of_addition {e : String × Extension} (he : e ∈ additions) {r s : Registry}
    (applied : e.2 r p = .ok () s) : Registry.Keeps r s := by
  simp only [additions, templateExtensions, List.drop_succ_cons, List.drop_zero, List.mem_cons,
    List.not_mem_nil, or_false] at he
  rcases he with rfl | rfl | rfl | rfl | rfl | rfl | rfl | rfl
  case inr.inr.inr.inr.inr.inr.inl => exact keeps_backdropFilter (p := p) applied
  all_goals exact Registry.keeps_add applied

theorem keeps_extended (p : Primitives) :
    Registry.Keeps ((standard p).insertAll (replacements p)) (extended p) := by
  rw [extended_eq]
  exact Registry.keeps_extendAll (fun e he r s applied => keeps_of_addition he applied) _

/-! ## Replacements -/

theorem color_within_colorOrReference (p : Primitives) :
    p.color.Within (colorOrReference p) :=
  within_oneOf_of_mem List.mem_cons_self (.refl _)

/-- A border with its width and its style in the other places. -/
theorem border_within (p : Primitives) :
    (borderOf p p.color).Within (someOf [lineStyle, lineWidth p, colorOrReference p]) := by
  refine within_anyOrder_of_places (Equiv.swap (0 : Fin 3) 1) ?_
  intro i
  match i with
  | 0 => exact .refl (lineWidth p)
  | 1 => exact .refl lineStyle
  | 2 => exact color_within_colorOrReference p

theorem sizeOf_within_more (p : Primitives) (first : String) (more : List Grammar) :
    (sizeOf p first []).Within (sizeOf p first more) := by
  apply oneOf_within_of_subset
  simp

theorem sizes_within_more (p : Primitives) (more : List Grammar) :
    List.Forall₂ EntryWithin (sizes p []) (sizes p more) := by
  have auto := sizeOf_within_more p "auto" more
  have none := sizeOf_within_more p "none" more
  dsimp only [sizes]
  generalize sizeOf p "auto" [] = a, sizeOf p "auto" more = a', sizeOf p "none" [] = n,
    sizeOf p "none" more = n' at *
  gcongr

theorem transform_within_inSpace (p : Primitives) :
    (transform p false).Within (transform p true) := by
  have functions : (oneOf (transformFunctions p false)).Within
      (oneOf (transformFunctions p true)) := by
    apply oneOf_within_of_subset
    simp [transformFunctions]
  exact within_oneOf (.cons (.refl _) (.cons (within_atLeastOne functions) .nil))

/-- A property listed with a grammar has no other. -/
theorem within_of_listed {name : String} {old new : Grammar}
    (listed : (name, old) ∈ standardEntries p) (within : old.Within new) :
    ∀ g ∈ (standard p).get? name, g.Within new := by
  intro g hg
  rw [get?_standard_of_mem listed] at hg
  cases hg
  exact within

theorem mem_standardEntries_of_sizes {e : String × Grammar} (h : e ∈ sizes p []) :
    e ∈ standardEntries p := by
  simp only [standardEntries, boxes, List.mem_append, h, true_or, or_true]

theorem replacements_within : ∀ e ∈ replacements p, Text.lower e.1 ∉ narrowed →
    ∀ g ∈ (standard p).get? e.1, g.Within e.2 := by
  intro e he compared
  simp only [replacements, List.mem_append, List.mem_cons, List.not_mem_nil, or_false] at he
  have absent {name : String} (lowered : Text.lower name = name)
      (unlisted : name ∉ (standardEntries .nothing).map (·.1)) (new : Grammar) :
      ∀ g ∈ (standard p).get? name, g.Within new := by
    rw [get?_standard_eq_none lowered unlisted]
    intro g hg
    cases hg
  rcases he with (((rfl | rfl | rfl | rfl) | size) | (rfl | rfl)) | rfl
  · exact absurd (by decide +kernel) compared
  · exact absurd (by decide +kernel) compared
  · exact within_of_listed (by simp [standardEntries, borders]) (border_within p)
  · exact within_of_listed (by simp [standardEntries, outlines])
      (boxShadowOf_within (.refl p) (color_within_colorOrReference p))
  · obtain ⟨old, listed, wider⟩ := exists_mem_of_within (sizes_within_more p _) size
    exact within_of_listed (mem_standardEntries_of_sizes listed) wider
  · exact within_of_listed (by simp [standardEntries, transforms]) (transform_within_inSpace p)
  · exact absent (by decide +kernel) (by decide +kernel) _
  · exact absent (by decide +kernel) (by decide +kernel) _

theorem standard_within_extended :
    Registry.Within narrowed (standard .standard) (extended .extended) := by
  have types : Registry.Within narrowed (standard .standard) (standard .extended) :=
    (Registry.alongside_ofList
      (standardEntries_within Primitives.standard_within_extended)).within narrowed
  have replaced := Registry.within_insertAll (replacements_within (p := .extended))
  exact (types.trans replaced).trans ((keeps_extended .extended).within narrowed)

/-! ## Narrowed lists -/

theorem get?_extended_of_mem {name : String} {g : Grammar}
    (h : (name, g) ∈ replacements .extended) : (extended .extended).get? name = some g := by
  have nodup : ((replacements .extended).map (Text.lower ·.1)).Nodup := by decide +kernel
  exact keeps_extended .extended name g (NameTable.get?_insertAll_of_mem nodup h)

theorem backgroundOrigin_listed :
    ("background-origin", commaList boxKeywords 1) ∈ standardEntries p := by
  simp [standardEntries, backgrounds]

theorem backgroundClip_listed :
    ("background-clip", commaList boxKeywords 1) ∈ standardEntries p := by
  simp [standardEntries, backgrounds]

/-- Where a list gave way to its item, the item may still stand alone. -/
theorem widens_single {name listed : String} (same : Text.lower name = Text.lower listed)
    {item new : Grammar} (before : (listed, commaList item 1) ∈ standardEntries .standard)
    (after : (listed, new) ∈ replacements .extended) (within : item.Within new) {g : Grammar}
    (known : (standard .standard).get? name = some g) :
    ∃ h, (extended .extended).get? name = some h ∧
      ∀ values, (∀ v ∈ values, ¬v.isComma) → g.matchesAll values → h.matchesAll values := by
  rw [NameTable.get?_congr same, get?_standard_of_mem before] at known
  rw [NameTable.get?_congr same, get?_extended_of_mem after]
  cases known
  refine ⟨new, rfl, ?_⟩
  intro values no_comma matched
  exact within.matchesAll (matchesAll_of_commaList Nat.one_ne_zero no_comma matched)

theorem narrowed_widens {name : String} (narrow : Text.lower name ∈ narrowed) {g : Grammar}
    (known : (standard .standard).get? name = some g) :
    ∃ h, (extended .extended).get? name = some h ∧
      ∀ values, (∀ v ∈ values, ¬v.isComma) → g.matchesAll values → h.matchesAll values := by
  have lowered : ∀ listed ∈ narrowed, Text.lower listed = listed := by decide +kernel
  rcases List.mem_cons.mp narrow with origin | clip
  · have same := origin.trans (lowered _ List.mem_cons_self).symm
    exact widens_single same backgroundOrigin_listed List.mem_cons_self (.refl _) known
  · have clip := List.mem_singleton.mp clip
    have same := clip.trans (lowered _ (List.mem_cons_of_mem _ List.mem_cons_self)).symm
    exact widens_single same backgroundClip_listed (List.mem_cons_of_mem _ List.mem_cons_self)
      (within_oneOf_of_mem List.mem_cons_self (.refl _)) known

end Property

/-- **The extended properties only widen**, but for two. What the standard grammar of a property
matches, its extended grammar matches too; the origin and the clipping of backgrounds have to be a
single one for that. -/
theorem extended_widens {name : String} {g : Grammar}
    (known : (Property.standard .standard).get? name = some g) :
    ∃ h, (Property.extended .extended).get? name = some h ∧
      ∀ values, (Text.lower name ∈ Property.narrowed → ∀ v ∈ values, ¬v.isComma) →
        g.matchesAll values → h.matchesAll values := by
  by_cases narrow : Text.lower name ∈ Property.narrowed
  · obtain ⟨h, found, widens⟩ := Property.narrowed_widens narrow known
    exact ⟨h, found, fun values no_comma => widens values (no_comma narrow)⟩
  · obtain ⟨h, found, within⟩ := Property.standard_within_extended name narrow g known
    exact ⟨h, found, fun values _ => within.matchesAll⟩

theorem extended_widens_backgroundClip :
    (Property.standard .standard).get? "background-clip" =
        some (commaList Property.boxKeywords 1) ∧
      ∃ h, (Property.extended .extended).get? "background-clip" = some h ∧
        h.matchesAll [.token .whitespace, .token (.ident "border-box")] := by
  have known := Property.get?_standard_of_mem (p := .standard) Property.backgroundClip_listed
  obtain ⟨h, found, widens⟩ := extended_widens known
  refine ⟨known, h, found, widens _ ?_ ?_⟩
  · intro _
    decide
  · decide +kernel

/-- The standard grammars of the two match a list of boxes, and the extended ones do not. -/
theorem list_of_boxes_lost :
    let boxes : List Value :=
      [.token (.ident "border-box"), .token .comma, .token (.ident "padding-box")]
    ∀ name ∈ Property.narrowed,
      (Property.standard .standard).accepts? name boxes = some true ∧
        (Property.extended .extended).accepts? name boxes = some false := by
  intro boxes name narrow
  have listed : (commaList Property.boxKeywords 1).matchesAll boxes = true := by decide +kernel
  have origin : Property.boxKeywords.matchesAll boxes = false := by decide +kernel
  have clip : (oneOf [Property.boxKeywords, keyword ["text", "border-area"]]).matchesAll boxes =
      false := by decide +kernel
  simp only [Property.narrowed, List.mem_cons, List.not_mem_nil, or_false] at narrow
  rcases narrow with rfl | rfl
  · rw [Registry.accepts?, Property.get?_standard_of_mem Property.backgroundOrigin_listed,
      Registry.accepts?, Property.get?_extended_of_mem List.mem_cons_self]
    exact ⟨congrArg some listed, congrArg some origin⟩
  · rw [Registry.accepts?, Property.get?_standard_of_mem Property.backgroundClip_listed,
      Registry.accepts?,
      Property.get?_extended_of_mem (List.mem_cons_of_mem _ List.mem_cons_self)]
    exact ⟨congrArg some listed, congrArg some clip⟩

end CssSieve
