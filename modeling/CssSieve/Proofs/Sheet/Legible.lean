import CssSieve.Proofs.Sheet.Important
import CssSieve.Proofs.Sheet.Reading

/-!
# Legible declarations and rules

A declaration is legible if nothing in its value would end it, be trimmed or be taken for an
annotation when it is read again. A rule is legible if nothing in its prelude would end the prelude,
be trimmed or start another kind of rule. Readers give nothing else.
-/

namespace CssSieve

/-! ## Declarations -/

structure Declaration.Legible (d : Declaration) : Prop where
  closed : ∀ v ∈ d.value, v ≠ .token .semicolon
  starts : ∀ v ∈ d.value.head?, v.isWhitespace = false
  ends : Value.trimEnd d.value = d.value
  unmarked : d.important = false → stripImportant d.value = (d.value, false)

namespace DeclarationReader.ReadFrom

variable {P : Value → Prop} {d : Declaration}

theorem forall_mem_value (h : ReadFrom P d) : ∀ v ∈ d.value, P v := by
  obtain ⟨name, value, rfl, collected⟩ := h
  intro v hv
  exact (collected.each v (List.mem_reverse.mp ((stripImportant_front _).subset hv))).1

theorem legible (h : ReadFrom P d) : d.Legible := by
  obtain ⟨name, value, rfl, collected⟩ := h
  have front : (stripImportant value.reverse).1 <+: value.reverse := stripImportant_front _
  refine ⟨?_, ?_, trimEnd_stripImportant _, ?_⟩
  · intro v hv
    exact (collected.each v (List.mem_reverse.mp (front.subset hv))).2
  · intro v hv
    have head := Value.mem_head?_of_front front v hv
    rw [List.head?_reverse] at head
    exact collected.starts v head
  · intro unmarked
    exact (stripImportant_of_unmarked unmarked).trans (Prod.ext rfl unmarked)

end DeclarationReader.ReadFrom

theorem Declaration.legible_of_mem_listOfValues {vs : List Value} :
    ∀ d ∈ listOfValues vs, d.Legible := by
  have any : ∀ v ∈ vs, True := fun _ _ => trivial
  exact fun d hd => (readFrom_of_mem_listOfValues any d hd).legible

/-! ## Rules -/

structure StyleRule.Legible (topLevel : Bool) (r : StyleRule) : Prop where
  trimmed : Value.trim r.prelude = r.prelude
  starts : ∀ v ∈ r.prelude.head?, v.startsStyleRule topLevel = true
  unbraced : ∀ v ∈ r.prelude, v.isBraces = false
  declarations : ∀ d ∈ r.declarations, d.Legible

structure AtRule.Legible (r : AtRule) : Prop where
  trimmed : Value.trim r.prelude = r.prelude
  unbraced : ∀ v ∈ r.prelude, v.isBraces = false
  closed : ∀ v ∈ r.prelude, v ≠ .token .semicolon

/-- The rule reads as it stands, at the top level of a sheet or inside a block. -/
def Rule.Legible (topLevel : Bool) : Rule → Prop
  | .style r => r.Legible topLevel
  | .at r => r.Legible

namespace RuleReader

variable {P : Value → Prop} {topLevel : Bool} {prelude : List Value}

theorem isWhitespace_of_startsStyleRule {v : Value} (h : v.startsStyleRule topLevel = true) :
    v.isWhitespace = false := by
  unfold Value.isWhitespace
  split
  next => cases h
  next => rfl

theorem mem_of_mem_trim_reverse {v : Value} (h : v ∈ Value.trim prelude.reverse) : v ∈ prelude :=
  List.mem_reverse.mp (Value.mem_of_mem_trim h)

theorem StylePrelude.legible (h : StylePrelude topLevel P prelude) (contents : List Value) :
    (styleRule prelude contents).Legible topLevel := by
  have starts : ∀ v ∈ prelude.reverse.head?, v.startsStyleRule topLevel = true := by
    rw [List.head?_reverse]
    exact h.starts
  have dark : ∀ v ∈ prelude.reverse.head?, v.isWhitespace = false :=
    fun v hv => isWhitespace_of_startsStyleRule (starts v hv)
  constructor
  case trimmed => exact Value.trim_trim _
  case starts => exact fun v hv => starts v (Value.head?_trim dark v hv)
  case unbraced => exact fun v hv => (h.each v (mem_of_mem_trim_reverse hv)).2
  case declarations => exact Declaration.legible_of_mem_listOfValues

theorem AtPrelude.legible (h : AtPrelude P prelude) (name : String) (block : AtBlock) :
    (atRule name prelude block).Legible topLevel := by
  constructor
  case trimmed => exact Value.trim_trim _
  case unbraced => exact fun v hv => (h v (mem_of_mem_trim_reverse hv)).2.1
  case closed => exact fun v hv => (h v (mem_of_mem_trim_reverse hv)).2.2

theorem ReadFrom.legible {r : Rule} (h : ReadFrom topLevel P r) : r.Legible topLevel := by
  cases h with
  | style collected _ => exact collected.legible _
  | atAbsent collected => exact collected.legible _ _
  | atBlock collected _ => exact collected.legible _ _

end RuleReader

end CssSieve
