import CssSieve.Policy.Basic
import CssSieve.Property.Extended

/-!
# Putting policies together

What is not chosen follows from the basic data types: the standard properties and descriptors built
from them, and their words for every property. The standard at-rules are known unless they are
declined; further at-rules are added behind them and may replace them.
-/

namespace CssSieve

structure PolicyOptions where
  primitives : Primitives
  /-- The properties of style rules. -/
  registry : Option Registry := none
  /-- The descriptors of `@font-face`. -/
  fontFaceRegistry : Option Registry := none
  /-- What is accepted as a value of any property. -/
  wide : Option Grammar := none
  standardAtRules : Bool := true
  /-- Further at-rules by name. -/
  atRules : List (String × AtRulePolicy) := []

namespace PolicyOptions

/-- Every extension, and references to variables anywhere in a value. -/
def extended : PolicyOptions :=
  { primitives := .extended
    registry := some (Property.extended .extended)
    fontFaceRegistry := some (Property.extendedFontFace .extended)
    wide := some (Property.referenceAnywhere .extended) }

/-- The policy for declarations in style rules, keyframes and pages. -/
def declarations (o : PolicyOptions) : DeclarationPolicy :=
  ⟨o.registry.getD (Property.standard o.primitives), o.wide.getD o.primitives.wideKeywords⟩

/-- The four standard at-rules. -/
def standard (o : PolicyOptions) : List (String × AtRulePolicy) :=
  let descriptors := o.fontFaceRegistry.getD (Property.fontFace o.primitives)
  [("font-face", .fontFaceOf descriptors o.primitives), ("media", .mediaOf o.primitives),
    ("keyframes", .keyframesOf o.declarations o.primitives), ("page", .pageOf o.declarations)]

def build (o : PolicyOptions) : Policy where
  styleRules := .ofDeclarations o.declarations
  atRules := .ofList ((if o.standardAtRules then o.standard else []) ++ o.atRules)

end PolicyOptions

namespace Policy

/-- The standard properties and at-rules. -/
def standard : Policy := PolicyOptions.build { primitives := .standard }

/-- The extended properties, with references to variables anywhere in a value. -/
def extended : Policy := PolicyOptions.extended.build

end Policy

end CssSieve
