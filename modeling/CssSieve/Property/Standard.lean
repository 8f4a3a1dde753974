import CssSieve.Property.Background
import CssSieve.Property.Border
import CssSieve.Property.Box
import CssSieve.Property.Content
import CssSieve.Property.Effect
import CssSieve.Property.Flex
import CssSieve.Property.Font
import CssSieve.Property.Motion
import CssSieve.Property.Text
import CssSieve.Registry.Basic

/-!
# The standard registries

The properties that style rules commonly need, and the descriptors of `@font-face`.
-/

namespace CssSieve.Property

/-- The properties of style rules. -/
def standardEntries (p : Primitives) : List (String × Grammar) :=
  backgrounds p ++ borders p ++ outlines p ++ effects p ++ boxes p ++ flexBoxes p ++ listStyles p
    ++ fonts p ++ textLayout p ++ textDecoration p ++ generatedContent p ++ transforms p
    ++ transitions p ++ animations p

def standard (p : Primitives) : Registry := .ofList (standardEntries p)

/-- The descriptors of `@font-face`. -/
def fontFace (p : Primitives) : Registry := .ofList (fontFaceDescriptors p)

end CssSieve.Property
