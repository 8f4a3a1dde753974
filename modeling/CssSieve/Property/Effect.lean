import CssSieve.Grammar.Primitives

/-!
# Filters and compositing
-/

namespace CssSieve.Property

open Grammar

/-- One filter function. -/
def filterFunction (p : Primitives) : Grammar :=
  let amount := optional (oneOf [p.number, p.percentage])
  oneOf
    ([function "blur" (optional p.length),
      function "hue-rotate" (optional (oneOf [p.angle, p.zero])),
      function "drop-shadow" (allOf [optional p.color, between p.length 2 3])]
    ++ ["brightness", "contrast", "grayscale", "invert", "opacity", "saturate", "sepia"].map
      (function · amount))

def effects (p : Primitives) : List (String × Grammar) :=
  [("filter", oneOf [word "none", atLeastOne (filterFunction p)]),
    ("mix-blend-mode",
      keyword
        ["normal", "multiply", "screen", "overlay", "darken", "lighten", "color-dodge",
          "color-burn", "hard-light", "soft-light", "difference", "exclusion", "hue",
          "saturation", "color", "luminosity"]),
    ("isolation", keyword ["auto", "isolate"])]

end CssSieve.Property
