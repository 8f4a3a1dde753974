import CssSieve.Grammar.Primitives

/-!
# Borders, outlines and shadows of boxes
-/

namespace CssSieve.Property

open Grammar

def lineStyle : Grammar :=
  keyword
    ["none", "hidden", "dotted", "dashed", "solid", "double", "groove", "ridge", "inset", "outset"]

def lineWidth (p : Primitives) : Grammar := oneOf [keyword ["thin", "medium", "thick"], p.length]

/-- Width, style and color of a border in any order. -/
def borderOf (p : Primitives) (color : Grammar) : Grammar :=
  someOf [lineWidth p, lineStyle, color]

/-- Shadows that may be inset, each with a color or without. -/
def boxShadowOf (p : Primitives) (color : Grammar) : Grammar :=
  oneOf
    [word "none",
      commaList (allOf [optional (word "inset"), between p.length 2 4, optional color]) 1]

/-- The properties of the border at one side. -/
def borderSide (p : Primitives) (side : String) : List (String × Grammar) :=
  let shorthand := "border-" ++ side
  [(shorthand, borderOf p p.color),
    (shorthand ++ "-style", lineStyle),
    (shorthand ++ "-width", lineWidth p),
    (shorthand ++ "-color", p.color)]

def borders (p : Primitives) : List (String × Grammar) :=
  let radius := p.lengthPercentage
  [("border", borderOf p p.color),
    ("border-style", between lineStyle 1 4),
    ("border-width", between (lineWidth p) 1 4),
    ("border-color", between p.color 1 4),
    ("border-collapse", keyword ["collapse", "separate"]),
    ("border-spacing", between p.length 1 2),
    ("border-radius",
      seq [between radius 1 4, optional (seq [delim ['/'], between radius 1 4])])]
  ++ ["top", "right", "bottom", "left"].flatMap (borderSide p)
  ++ ["border-top-left-radius", "border-top-right-radius", "border-bottom-right-radius",
      "border-bottom-left-radius"].map (·, between radius 1 2)

/-- Outlines, and the shadows of boxes. -/
def outlines (p : Primitives) : List (String × Grammar) :=
  let color := oneOf [p.color, word "invert"]
  let style := oneOf [word "auto", lineStyle]
  [("outline", someOf [color, style, lineWidth p]),
    ("outline-color", color),
    ("outline-style", style),
    ("outline-width", lineWidth p),
    ("outline-offset", p.length),
    ("box-shadow", boxShadowOf p p.color)]

end CssSieve.Property
