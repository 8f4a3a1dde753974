import CssSieve.Grammar.Primitives
import CssSieve.Proofs.Grammar.Widening

/-!
# Wider data types

Primitives are within others if each of their types is. The extended types are wider than the
standard ones: they admit more digits in a color, and references to variables in its functions.
-/

namespace CssSieve

open Grammar

/-- Each basic data type is within its counterpart. -/
structure Primitives.Within (p q : Primitives) : Prop where
  integer : p.integer.Within q.integer
  number : p.number.Within q.number
  percentage : p.percentage.Within q.percentage
  zero : p.zero.Within q.zero
  length : p.length.Within q.length
  lengthPercentage : p.lengthPercentage.Within q.lengthPercentage
  angle : p.angle.Within q.angle
  anglePercentage : p.anglePercentage.Within q.anglePercentage
  time : p.time.Within q.time
  frequency : p.frequency.Within q.frequency
  resolution : p.resolution.Within q.resolution
  comma : p.comma.Within q.comma
  string : p.string.Within q.string
  customIdent : p.customIdent.Within q.customIdent
  url : p.url.Within q.url
  color : p.color.Within q.color
  position : p.position.Within q.position
  image : p.image.Within q.image
  easing : p.easing.Within q.easing
  wideKeywords : p.wideKeywords.Within q.wideKeywords
  reference : p.reference.Within q.reference

@[refl]
theorem Primitives.Within.refl (p : Primitives) : p.Within p := by
  constructor <;> exact Grammar.Within.refl _

attribute [gcongr] Primitives.Within.integer Primitives.Within.number
  Primitives.Within.percentage Primitives.Within.zero Primitives.Within.length
  Primitives.Within.lengthPercentage Primitives.Within.angle Primitives.Within.anglePercentage
  Primitives.Within.time Primitives.Within.frequency Primitives.Within.resolution
  Primitives.Within.comma Primitives.Within.string Primitives.Within.customIdent
  Primitives.Within.url Primitives.Within.color Primitives.Within.position
  Primitives.Within.image Primitives.Within.easing Primitives.Within.wideKeywords
  Primitives.Within.reference

namespace Grammar

theorem imageOf_within {url color color' lengthPercentage angle zero position : Grammar}
    (within : color.Within color') :
    (imageOf url color lengthPercentage angle zero position).Within
      (imageOf url color' lengthPercentage angle zero position) := by
  dsimp only [imageOf]
  gcongr

/-- A reference may stand for any argument, or for several of them. -/
theorem colorFunctions_within (reference integer number percentage : Grammar) :
    List.Forall₂ Within (plainColorFunctions integer number percentage)
      (variableColorFunctions reference integer number percentage) := by
  dsimp only [plainColorFunctions, variableColorFunctions]
  generalize hi : oneOf [reference, integer] = i
  generalize hn : oneOf [reference, number] = n
  generalize hp : oneOf [reference, percentage] = p
  have argument (g : Grammar) : g.Within (oneOf [reference, g]) :=
    within_oneOf_of_mem (List.mem_cons_of_mem reference List.mem_cons_self) (.refl g)
  have integer_within : integer.Within i := hi ▸ argument integer
  have number_within : number.Within n := hn ▸ argument number
  have percentage_within : percentage.Within p := hp ▸ argument percentage
  have three : (oneOf [commaBetween integer 3 3, commaBetween percentage 3 3]).Within
      (oneOf [commaBetween i 3 3, commaBetween p 3 3]) := by gcongr
  have four : (oneOf [commaSeq [integer, integer, integer, number],
      commaSeq [percentage, percentage, percentage, number]]).Within
      (oneOf [commaSeq [i, i, i, n], commaSeq [p, p, p, n]]) := by gcongr
  have hsl : (commaSeq [number, percentage, percentage]).Within (commaSeq [n, p, p]) := by gcongr
  have hsla : (commaSeq [number, percentage, percentage, number]).Within
      (commaSeq [n, p, p, n]) := by gcongr
  refine .cons (within_function ?_) (.cons (within_function ?_)
    (.cons (within_function ?_) (.cons (within_function ?_) .nil)))
  · exact three.trans (oneOf_within_of_subset (by simp))
  · exact four.trans (oneOf_within_of_subset (by simp))
  · exact within_oneOf_of_mem List.mem_cons_self hsl
  · exact within_oneOf_of_mem List.mem_cons_self hsla

end Grammar

namespace Primitives

/-- Types that match nothing. -/
def nothing : Primitives :=
  ⟨oneOf [], oneOf [], oneOf [], oneOf [], oneOf [], oneOf [], oneOf [], oneOf [], oneOf [],
    oneOf [], oneOf [], oneOf [], oneOf [], oneOf [], oneOf [], oneOf [], oneOf [], [], oneOf [],
    oneOf [], oneOf [], oneOf [], oneOf [], oneOf []⟩

theorem nothing_within (p : Primitives) : nothing.Within p := by
  have fails (g : Grammar) : (oneOf []).Within g := oneOf_within fun _ hg => nomatch hg
  constructor <;> exact fails _

theorem colorHex_within : standard.colorHex.Within extended.colorHex := by
  apply within_tokenThat
  intro t ht
  cases t with
  | hash s flag =>
      simp only [isHexColor, Bool.and_eq_true, List.contains_iff_mem] at ht ⊢
      have lengths : [3, 6] ⊆ [3, 4, 6, 8] := by decide
      exact ⟨lengths ht.1, ht.2⟩
  | _ => cases ht

theorem color_within : standard.color.Within extended.color :=
  within_oneOf (.cons (.refl _) (.cons colorHex_within (colorFunctions_within _ _ _ _)))

theorem standard_within_extended : standard.Within extended where
  integer := .refl _
  number := .refl _
  percentage := .refl _
  zero := .refl _
  length := .refl _
  lengthPercentage := .refl _
  angle := .refl _
  anglePercentage := .refl _
  time := .refl _
  frequency := .refl _
  resolution := .refl _
  comma := .refl _
  string := .refl _
  customIdent := .refl _
  url := .refl _
  color := color_within
  position := .refl _
  image := imageOf_within color_within
  easing := .refl _
  wideKeywords := .refl _
  reference := .refl _

end Primitives

end CssSieve
