import CssSieve.MediaQuery
import CssSieve.Proofs.Property.Extended

/-!
# Wider data types never reject

Whatever is built from basic data types becomes wider when they do: the standard and the extended
properties, the descriptors of fonts, references to variables anywhere, and media queries. The
extended properties are put together by extensions that may fail; from wider types the same ones
fail, since names alone decide. Two registries that know the same names, the second one with wider
grammars, stand `Alongside` each other, and every extension keeps them so.
-/

namespace CssSieve

open Grammar

namespace Registry

/-- Two steps that both fail and say the same, or both give registries alongside each other. -/
def Parallel (x y : EStateM.Result RegistryError Registry Unit) : Prop :=
  match x, y with
  | .ok () r, .ok () s => Alongside r s
  | .error e _, .error f _ => e = f
  | .ok _ _, .error _ _ | .error _ _, .ok _ _ => False

variable {r s : Registry} {as bs : List (String × Grammar)}

theorem Alongside.contains_eq (h : Alongside r s) (name : String) :
    r.contains name = s.contains name := by
  have both := h name
  rw [NameTable.contains, NameTable.contains]
  generalize r.get? name = left, s.get? name = right at both ⊢
  cases both with
  | none => rfl
  | some _ => rfl

/-- Tables that know the same have wider grammars among their entries too. -/
theorem Alongside.insertAll_entries {t u : NameTable Grammar} (h : Alongside r s)
    (pending : Alongside t u) : Alongside (r.insertAll t.entries) (s.insertAll u.entries) := by
  intro name
  have first := pending name
  rw [NameTable.get?_insertAll_entries, NameTable.get?_insertAll_entries]
  generalize t.get? name = left, u.get? name = right at first ⊢
  cases first with
  | none => exact h name
  | some wider => exact .some wider

/-- Names alone decide whether something is refused. -/
theorem Alongside.addPending (h : Alongside r s) {t u : NameTable Grammar} (pending : Alongside t u)
    (within : List.Forall₂ EntryWithin as bs) :
    Parallel (r.addPending t as) (s.addPending u bs) := by
  induction within generalizing t u with
  | nil => exact h.insertAll_entries pending
  | @cons a b _ _ first _ ih =>
      obtain ⟨name, g⟩ := a
      obtain ⟨_, k⟩ := b
      obtain ⟨rfl, wider⟩ := first
      rw [Registry.addPending, Registry.addPending, h.contains_eq, pending.contains_eq]
      split
      · rfl
      · exact ih (pending.insert name wider)

theorem Alongside.add (h : Alongside r s) (within : List.Forall₂ EntryWithin as bs) :
    Parallel (r.add as) (s.add bs) := by
  have nothing : Alongside ∅ ∅ := fun name => .none
  exact h.addPending nothing within

end Registry

open Registry (Alongside Parallel)

/-! ## Extensions -/

/-- From wider types the extension does the same with wider grammars. -/
def Extension.Widens (e : Extension) (p q : Primitives) : Prop :=
  ∀ r s, Alongside r s → Parallel (e r p) (e s q)

variable {p q : Primitives}

theorem Registry.Alongside.extendAll {r s : Registry} (h : Alongside r s)
    {extensions : List (String × Extension)} (widen : ∀ e ∈ extensions, e.2.Widens p q) :
    Alongside (r.extendAll p extensions).1 (s.extendAll q extensions).1 := by
  induction extensions generalizing r s with
  | nil => exact h
  | cons e extensions ih =>
      obtain ⟨first, others⟩ := List.forall_mem_cons.mp widen
      have step : Alongside (r.extendOrWarn p e.1 e.2).1 (s.extendOrWarn q e.1 e.2).1 := by
        have both := first r s h
        rw [extendOrWarn, extendOrWarn]
        cases left : e.2 r p <;> cases right : e.2 s q <;> rw [left, right] at both
        · exact both
        · exact both.elim
        · exact both.elim
        · exact h
      exact ih step others

namespace Property

variable (within : p.Within q)
include within

@[gcongr]
theorem colorOrReference_within : (colorOrReference p).Within (colorOrReference q) := by
  unfold colorOrReference
  gcongr

theorem borderBackground_widens : Extension.Widens borderBackground p q := by
  intro r s h
  apply h.insertAll
  gcongr

theorem sizingFunctions_widens : Extension.Widens sizingFunctions p q := by
  intro r s h
  apply h.insertAll
  gcongr

theorem spaceTransforms_widens : Extension.Widens spaceTransforms p q := by
  intro r s h
  apply h.insertAll
  gcongr

theorem scrollSpacing_widens : Extension.Widens scrollSpacing p q := by
  intro r s h
  apply h.add
  gcongr

theorem aspectRatio_widens : Extension.Widens aspectRatio p q := by
  intro r s h
  apply h.add
  gcongr

theorem inset_widens : Extension.Widens inset p q := by
  intro r s h
  have offset : (autoOrLength p).Within (autoOrLength q) := autoOrLength_within within
  apply h.add
  gcongr

omit within in
/-- An extension that adds the same grammars from whatever types. -/
theorem add_widens (batch : List (String × Grammar)) :
    Extension.Widens (fun r _ => r.add batch) p q := by
  intro r s h
  exact h.add (forall₂_entryWithin_refl batch)

omit within in
theorem transitionBehavior_widens : Extension.Widens transitionBehavior p q := by
  intro r s h
  exact h.insertAll (forall₂_entryWithin_refl _)

omit within in
/-- The filter that is looked up may be wider itself. -/
theorem backdropFilter_widens : Extension.Widens backdropFilter p q := by
  intro r s h
  have both := h "filter"
  rw [backdropFilter, backdropFilter, Registry.require, Registry.require]
  cases left : r.get? "filter" <;> cases right : s.get? "filter" <;> rw [left, right] at both
  · rfl
  · cases both
  · cases both
  · cases both with
    | some wider =>
        apply h.add
        gcongr

theorem templateExtensions_widen : ∀ e ∈ templateExtensions, e.2.Widens p q := by
  simp only [templateExtensions, List.forall_mem_cons, List.not_mem_nil, false_imp_iff,
    implies_true, and_true]
  exact ⟨borderBackground_widens within, sizingFunctions_widens within,
    spaceTransforms_widens within, transitionBehavior_widens, add_widens _, add_widens _,
    add_widens _, scrollSpacing_widens within, aspectRatio_widens within, inset_widens within,
    backdropFilter_widens, add_widens _⟩

theorem standard_alongside : Alongside (standard p) (standard q) :=
  Registry.alongside_ofList (standardEntries_within within)

theorem extended_alongside : Alongside (extended p) (extended q) := by
  rw [extended_unfold]
  beta_reduce
  rw [extendedWithWarnings, extendedWithWarnings]
  exact (standard_alongside within).extendAll (templateExtensions_widen within)

/-! ## Descriptors of fonts -/

theorem fontSource_within : (fontSource p).Within (fontSource q) := by
  dsimp only [fontSource]
  gcongr

theorem fontFaceDescriptors_within :
    List.Forall₂ EntryWithin (fontFaceDescriptors p) (fontFaceDescriptors q) := by
  have source := fontSource_within within
  unfold fontFaceDescriptors
  gcongr

theorem fontFace_alongside : Alongside (fontFace p) (fontFace q) :=
  Registry.alongside_ofList (fontFaceDescriptors_within within)

/-! ## References anywhere -/

@[gcongr]
theorem ordinaryValue_within : (ordinaryValue p).Within (ordinaryValue q) := by
  unfold ordinaryValue
  gcongr

@[gcongr]
theorem referenceWithFallback_within :
    (referenceWithFallback p).Within (referenceWithFallback q) := by
  unfold referenceWithFallback
  gcongr

theorem referenceAnywhere_within : (referenceAnywhere p).Within (referenceAnywhere q) := by
  dsimp only [referenceAnywhere]
  gcongr

end Property

namespace MediaQuery

variable (within : p.Within q)
include within

@[gcongr]
theorem featureValue_within : (featureValue p).Within (featureValue q) := by
  unfold featureValue
  gcongr

@[gcongr]
theorem feature_within : (feature p).Within (feature q) := by
  dsimp only [feature]
  gcongr

omit within in
@[gcongr]
theorem conditionOf_within {term term' : Grammar} {allowOr : Bool} (within : term.Within term') :
    (conditionOf term allowOr).Within (conditionOf term' allowOr) := by
  cases allowOr with
  | false =>
      simp only [conditionOf, Bool.false_eq_true, if_false]
      gcongr
  | true =>
      simp only [conditionOf, if_true]
      gcongr

@[gcongr]
theorem inParens_within {depth : Nat} : (inParens p depth).Within (inParens q depth) := by
  induction depth with
  | zero => exact feature_within within
  | succ depth ih =>
      rw [inParens, inParens]
      gcongr

@[gcongr]
theorem condition_within {depth : Nat} {allowOr : Bool} :
    (condition p depth allowOr).Within (condition q depth allowOr) :=
  conditionOf_within (inParens_within within)

@[gcongr]
theorem query_within : (query p).Within (query q) := by
  unfold query
  gcongr

theorem list_within : (list p).Within (list q) := by
  unfold list
  gcongr

end MediaQuery

/-! ## Everything that is built from data types -/

/-- **Wider data types never reject.** Where every basic data type reaches what its counterpart
does, so does every grammar that is built from it. The extended data types are wider than the
standard ones, whole colors as well as the words and digits they consist of. -/
theorem wider_of_wider_types :
    (∀ p q : Primitives, p.Within q →
      Alongside (Property.standard p) (Property.standard q) ∧
        Alongside (Property.fontFace p) (Property.fontFace q) ∧
        Alongside (Property.extended p) (Property.extended q) ∧
        (Property.referenceAnywhere p).Within (Property.referenceAnywhere q) ∧
        (MediaQuery.list p).Within (MediaQuery.list q)) ∧
      Primitives.standard.Within .extended ∧
      Primitives.standard.colorWords.Within Primitives.extended.colorWords ∧
      Primitives.standard.colorHex.Within Primitives.extended.colorHex := by
  refine ⟨?_, Primitives.standard_within_extended, .refl _, Primitives.colorHex_within⟩
  intro p q within
  exact ⟨Property.standard_alongside within, Property.fontFace_alongside within,
    Property.extended_alongside within, Property.referenceAnywhere_within within,
    MediaQuery.list_within within⟩

/-- The end of a digit color behind white space, carried over from the standard data types. -/
theorem wider_of_wider_types_color :
    Primitives.standard.Within .extended ∧
      ∃ g, (Property.standard .extended).get? "color" = some g ∧
        2 ∈ g.ends [.token .whitespace, .token (.hash "0af" .id)] 0 := by
  have known : (Property.standard .standard).get? "color" = some Primitives.standard.color :=
    Property.get?_standard_of_mem (by simp [Property.standardEntries, Property.backgrounds])
  have reached : 2 ∈ Primitives.standard.color.ends
      [.token .whitespace, .token (.hash "0af" .id)] 0 := by
    decide +kernel
  refine ⟨Primitives.standard_within_extended, ?_⟩
  have both := (wider_of_wider_types.1 _ _ Primitives.standard_within_extended).1 "color"
  rw [known] at both
  cases wider : (Property.standard .extended).get? "color" with
  | none =>
      rw [wider] at both
      cases both
  | some g =>
      rw [wider] at both
      cases both with
      | some within => exact ⟨g, rfl, within reached⟩

end CssSieve
