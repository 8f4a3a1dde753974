import CssSieve.Policy.Declaration
import CssSieve.Selector

/-!
# Which style rules are allowed

A style rule is kept when its prelude matches the selectors, even if none of its declarations is.
The same check with other selectors is used for keyframes.
-/

namespace CssSieve

structure StyleRulePolicy where
  selectors : Grammar
  declarations : DeclarationPolicy

namespace StyleRulePolicy

/-- The selectors of ordinary style rules. -/
def ofDeclarations (declarations : DeclarationPolicy) : StyleRulePolicy :=
  ⟨Selector.list, declarations⟩

def invalidSelector (index : Nat) (prelude : List Value) : Diagnostic :=
  .error .invalidSelector (.rule index) ("invalid selector '" ++ Value.cssAll prelude ++ "'")

/-- Checks the style rule with the given index in its list. -/
def check (policy : StyleRulePolicy) (index : Nat) (r : StyleRule) : Checked (Option StyleRule) :=
  if policy.selectors.matchesAll r.prelude then
    (policy.declarations.checkAll r.declarations).inside index (⟨r.prelude, ·⟩)
  else .drop (invalidSelector index r.prelude) []

end StyleRulePolicy

end CssSieve
