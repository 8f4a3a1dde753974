import CssSieve.Grammar.Primitives

/-!
# Backgrounds and colors
-/

namespace CssSieve.Property

open Grammar

/-- The boxes that a background can be placed in or cut off at. -/
def boxKeywords : Grammar := keyword ["border-box", "padding-box", "content-box"]

def backgroundImage (p : Primitives) : Grammar := oneOf [word "none", p.image]

def repeatStyle : Grammar :=
  oneOf
    [keyword ["repeat-x", "repeat-y"],
      between (keyword ["repeat", "space", "round", "no-repeat"]) 1 2]

def attachment : Grammar := keyword ["scroll", "fixed", "local"]

def backgroundSize (p : Primitives) : Grammar :=
  oneOf [keyword ["cover", "contain"], between (oneOf [word "auto", p.lengthPercentage]) 1 2]

/-- One layer of the shorthand. -/
def backgroundLayer (p : Primitives) : Grammar :=
  someOf
    [backgroundImage p,
      seq [p.position, optional (seq [delim ['/'], backgroundSize p])],
      repeatStyle, attachment, boxKeywords, boxKeywords, p.color]

/-- Colors and backgrounds. -/
def backgrounds (p : Primitives) : List (String × Grammar) :=
  [("color", p.color),
    ("opacity", oneOf [p.number, p.percentage]),
    ("background-color", p.color),
    ("background-image", commaList (backgroundImage p) 1),
    ("background-repeat", commaList repeatStyle 1),
    ("background-attachment", commaList attachment 1),
    ("background-position", commaList p.position 1),
    ("background-size", commaList (backgroundSize p) 1),
    ("background-origin", commaList boxKeywords 1),
    ("background-clip", commaList boxKeywords 1),
    ("background", commaList (backgroundLayer p) 1)]

end CssSieve.Property
