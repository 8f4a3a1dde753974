import CssSieve.Grammar.Primitives

/-!
# Boxes

Sizes, margins and padding, and where and how a box is laid out.
-/

namespace CssSieve.Property

open Grammar

/-- A size whose first word is given, with more alternatives behind the usual ones. -/
def sizeOf (p : Primitives) (first : String) (additions : List Grammar) : Grammar :=
  oneOf
    (keyword [first, "min-content", "max-content"] :: p.lengthPercentage
      :: function "fit-content" p.lengthPercentage :: additions)

/-- The properties for sizes, each with the additions. -/
def sizes (p : Primitives) (additions : List Grammar) : List (String × Grammar) :=
  let auto := sizeOf p "auto" additions
  let none := sizeOf p "none" additions
  [("width", auto), ("height", auto), ("inline-size", auto), ("block-size", auto),
    ("min-width", auto), ("min-height", auto), ("min-inline-size", auto),
    ("min-block-size", auto), ("max-width", none), ("max-height", none),
    ("max-inline-size", none), ("max-block-size", none)]

/-- A shorthand for four sides, the physical and logical sides, and the two logical axes. -/
def boxSides (shorthand : String) (value : Grammar) : List (String × Grammar) :=
  (shorthand, between value 1 4)
    :: ["-top", "-right", "-bottom", "-left", "-block-start", "-block-end", "-inline-start",
        "-inline-end"].map (fun side => (shorthand ++ side, value))
    ++ ["-block", "-inline"].map fun axis => (shorthand ++ axis, between value 1 2)

/-- A length or percentage, or `auto`. -/
def autoOrLength (p : Primitives) : Grammar := oneOf [word "auto", p.lengthPercentage]

def boxes (p : Primitives) : List (String × Grammar) :=
  let offset := autoOrLength p
  let overflow := keyword ["visible", "hidden", "clip", "scroll", "auto"]
  sizes p []
  ++ [("display",
      keyword
        ["block", "inline", "inline-block", "flex", "inline-flex", "grid", "inline-grid",
          "flow-root", "list-item", "table", "inline-table", "table-row", "table-cell",
          "table-column", "table-row-group", "table-header-group", "table-footer-group",
          "table-caption", "contents", "none"]),
    ("box-sizing", keyword ["content-box", "border-box"]),
    ("position", keyword ["static", "relative", "absolute", "fixed", "sticky"]),
    ("top", offset), ("right", offset), ("bottom", offset), ("left", offset),
    ("z-index", oneOf [word "auto", p.integer]),
    ("float", keyword ["left", "right", "none", "inline-start", "inline-end"]),
    ("clear", keyword ["none", "left", "right", "both", "inline-start", "inline-end"]),
    ("visibility", keyword ["visible", "hidden", "collapse"]),
    ("overflow", between overflow 1 2),
    ("overflow-x", overflow),
    ("overflow-y", overflow),
    ("vertical-align",
      oneOf
        [keyword
          ["baseline", "sub", "super", "text-top", "text-bottom", "middle", "top", "bottom"],
          p.lengthPercentage]),
    ("object-fit", keyword ["fill", "contain", "cover", "none", "scale-down"]),
    ("object-position", p.position),
    ("table-layout", keyword ["auto", "fixed"]),
    ("caption-side", keyword ["top", "bottom"]),
    ("empty-cells", keyword ["show", "hide"]),
    ("cursor",
      keyword
        ["auto", "default", "none", "context-menu", "help", "pointer", "progress", "wait", "cell",
          "crosshair", "text", "vertical-text", "alias", "copy", "move", "no-drop", "not-allowed",
          "grab", "grabbing", "col-resize", "row-resize", "zoom-in", "zoom-out"]),
    ("resize", keyword ["none", "both", "horizontal", "vertical", "block", "inline"])]
  ++ boxSides "margin" offset
  ++ boxSides "padding" p.lengthPercentage

end CssSieve.Property
