import CssSieve.Grammar.Basic

/-!
# Primitive value types

The basic data types that the grammars of properties are built from. A `Primitives` value holds one
grammar for each; every field has a default, and a default refers to the fields before it, so that
replacing one type also replaces it inside the types that are built from it.
-/

namespace CssSieve

/-! ## Units and words -/

def lengthUnits : List String :=
  ["em", "rem", "ex", "rex", "cap", "rcap", "ch", "rch", "ic", "ric", "lh", "rlh", "vw", "vh",
    "vi", "vb", "vmin", "vmax", "svw", "svh", "lvw", "lvh", "dvw", "dvh", "cqw", "cqh", "cqi",
    "cqb", "cqmin", "cqmax", "cm", "mm", "q", "in", "pt", "pc", "px"]

def angleUnits : List String := ["deg", "grad", "rad", "turn"]

def timeUnits : List String := ["s", "ms"]

def frequencyUnits : List String := ["hz", "khz"]

def resolutionUnits : List String := ["dpi", "dpcm", "dppx", "x"]

def colorNames : List String :=
  ["aliceblue", "antiquewhite", "aqua", "aquamarine", "azure", "beige", "bisque", "black",
    "blanchedalmond", "blue", "blueviolet", "brown", "burlywood", "cadetblue", "chartreuse",
    "chocolate", "coral", "cornflowerblue", "cornsilk", "crimson", "cyan", "darkblue", "darkcyan",
    "darkgoldenrod", "darkgray", "darkgreen", "darkgrey", "darkkhaki", "darkmagenta",
    "darkolivegreen", "darkorange", "darkorchid", "darkred", "darksalmon", "darkseagreen",
    "darkslateblue", "darkslategray", "darkslategrey", "darkturquoise", "darkviolet", "deeppink",
    "deepskyblue", "dimgray", "dimgrey", "dodgerblue", "firebrick", "floralwhite", "forestgreen",
    "fuchsia", "gainsboro", "ghostwhite", "gold", "goldenrod", "gray", "green", "greenyellow",
    "grey", "honeydew", "hotpink", "indianred", "indigo", "ivory", "khaki", "lavender",
    "lavenderblush", "lawngreen", "lemonchiffon", "lightblue", "lightcoral", "lightcyan",
    "lightgoldenrodyellow", "lightgray", "lightgreen", "lightgrey", "lightpink", "lightsalmon",
    "lightseagreen", "lightskyblue", "lightslategray", "lightslategrey", "lightsteelblue",
    "lightyellow", "lime", "limegreen", "linen", "magenta", "maroon", "mediumaquamarine",
    "mediumblue", "mediumorchid", "mediumpurple", "mediumseagreen", "mediumslateblue",
    "mediumspringgreen", "mediumturquoise", "mediumvioletred", "midnightblue", "mintcream",
    "mistyrose", "moccasin", "navajowhite", "navy", "oldlace", "olive", "olivedrab", "orange",
    "orangered", "orchid", "palegoldenrod", "palegreen", "paleturquoise", "palevioletred",
    "papayawhip", "peachpuff", "peru", "pink", "plum", "powderblue", "purple", "rebeccapurple",
    "red", "rosybrown", "royalblue", "saddlebrown", "salmon", "sandybrown", "seagreen",
    "seashell", "sienna", "silver", "skyblue", "slateblue", "slategray", "slategrey", "snow",
    "springgreen", "steelblue", "tan", "teal", "thistle", "tomato", "turquoise", "violet",
    "wheat", "white", "whitesmoke", "yellow", "yellowgreen", "transparent", "currentcolor"]

/-- The words that every property accepts as its whole value. -/
def wideWords : List String := ["initial", "inherit", "unset", "revert", "revert-layer"]

/-! ## Tests of single tokens -/

/-- The token is a dimension with one of the units, in any ASCII case. -/
def hasUnit (units : List String) (t : Token) : Bool :=
  match t.unit? with
  | some unit => Text.caselessMem unit units
  | none => false

/-- The numeric value is zero, of either sign, and not only close to it. -/
def isZero (t : Token) : Bool :=
  match t.value? with
  | some x => x == 0
  | none => false

/-- The identifier may name something of the author's: it is neither a word for every property nor
the reserved `default`. -/
def isCustomIdent (t : Token) : Bool :=
  match t.text? with
  | some w => !Text.caseless w "default" && !Text.caselessMem w wideWords
  | none => false

def isHexDigit (c : Char) : Bool :=
  c.isDigit || ('a' ≤ c && c ≤ 'f') || ('A' ≤ c && c ≤ 'F')

/-- The hash consists of hexadecimal digits, as many of them as one of the lengths says. -/
def isHexColor (lengths : List Nat) : Token → Bool
  | .hash s _ => lengths.contains s.length && s.toList.all isHexDigit
  | _ => false

/-! ## Compound types -/

namespace Grammar

def dimension (units : List String) : Grammar := tokenThat .dimension (hasUnit units)

/-- The color functions with their arguments between commas. -/
def plainColorFunctions (integer number percentage : Grammar) : List Grammar :=
  [function "rgb" (oneOf [commaBetween integer 3 3, commaBetween percentage 3 3]),
    function "rgba"
      (oneOf
        [commaSeq [integer, integer, integer, number],
          commaSeq [percentage, percentage, percentage, number]]),
    function "hsl" (commaSeq [number, percentage, percentage]),
    function "hsla" (commaSeq [number, percentage, percentage, number])]

/-- The color functions where a reference to a variable may stand for any argument, or for several
of them. -/
def variableColorFunctions (reference integer number percentage : Grammar) : List Grammar :=
  let i := oneOf [reference, integer]
  let n := oneOf [reference, number]
  let p := oneOf [reference, percentage]
  [function "rgb"
      (oneOf [commaBetween i 3 3, commaBetween p 3 3, commaBetween reference 1 3]),
    function "rgba"
      (oneOf
        [commaSeq [i, i, i, n], commaSeq [p, p, p, n], commaBetween reference 1 4,
          commaSeq [commaBetween reference 1 3, n]]),
    function "hsl" (oneOf [commaSeq [n, p, p], commaBetween reference 1 3]),
    function "hsla" (oneOf [commaSeq [n, p, p, n], commaBetween reference 1 4])]

/-- One, two or up to four words and offsets that place something in a box. -/
def boxPosition (lengthPercentage : Grammar) : Grammar :=
  let one := oneOf [keyword ["left", "center", "right", "top", "bottom"], lengthPercentage]
  let two :=
    seq
      [oneOf [keyword ["left", "center", "right"], lengthPercentage],
        oneOf [keyword ["top", "center", "bottom"], lengthPercentage]]
  let side (words : List String) :=
    oneOf [word "center", seq [keyword words, optional lengthPercentage]]
  let four := allOf [side ["left", "right"], side ["top", "bottom"]]
  oneOf [two, four, one]

/-- A url or a gradient. -/
def imageOf (url color lengthPercentage angle zero position : Grammar) : Grammar :=
  let stops := commaList (seq [color, optional lengthPercentage]) 2
  let side := someOf [keyword ["left", "right"], keyword ["top", "bottom"]]
  let direction := oneOf [angle, zero, seq [word "to", side]]
  let linear := oneOf [commaSeq [direction, stops], stops]
  let shape :=
    someOf
      [keyword ["circle", "ellipse"],
        keyword ["closest-side", "closest-corner", "farthest-side", "farthest-corner"]]
  let center := seq [word "at", position]
  let ending := oneOf [seq [shape, optional center], center]
  let radial := oneOf [commaSeq [ending, stops], stops]
  oneOf
    [url, function "linear-gradient" linear, function "repeating-linear-gradient" linear,
      function "radial-gradient" radial, function "repeating-radial-gradient" radial]

/-- The timing functions of transitions and animations. -/
def easingOf (integer number comma : Grammar) : Grammar :=
  let jumps := keyword ["jump-start", "jump-end", "jump-none", "jump-both", "start", "end"]
  oneOf
    [keyword ["linear", "ease", "ease-in", "ease-out", "ease-in-out", "step-start", "step-end"],
      function "steps" (seq [integer, optional (seq [comma, jumps])]),
      function "cubic-bezier" (commaBetween number 4 4)]

end Grammar

open Grammar

/-- One grammar for each basic data type. -/
structure Primitives where
  integer : Grammar := tokenThat .number Token.isInteger
  number : Grammar := anyToken .number
  percentage : Grammar := anyToken .percentage
  /-- A zero without a unit, which may stand for a length or an angle. -/
  zero : Grammar := tokenThat .number isZero
  length : Grammar := oneOf [dimension lengthUnits, zero]
  lengthPercentage : Grammar := oneOf [length, percentage]
  angle : Grammar := dimension angleUnits
  anglePercentage : Grammar := oneOf [angle, percentage]
  time : Grammar := dimension timeUnits
  frequency : Grammar := dimension frequencyUnits
  resolution : Grammar := dimension resolutionUnits
  comma : Grammar := anyToken .comma
  string : Grammar := anyToken .string
  /-- A name of the author's choice. -/
  customIdent : Grammar := tokenThat .ident isCustomIdent
  url : Grammar := oneOf [anyToken .url, function "url" string]
  colorWords : Grammar := keyword colorNames
  colorHex : Grammar := tokenThat .hash (isHexColor [3, 6])
  colorFunctions : List Grammar := plainColorFunctions integer number percentage
  color : Grammar := oneOf (colorWords :: colorHex :: colorFunctions)
  position : Grammar := boxPosition lengthPercentage
  image : Grammar := imageOf url color lengthPercentage angle zero position
  easing : Grammar := easingOf integer number comma
  /-- The words that every property accepts. -/
  wideKeywords : Grammar := keyword wideWords
  /-- A reference to a variable. -/
  reference : Grammar := function "var" customProperty

namespace Primitives

/-- The standard types. -/
def standard : Primitives := {}

/-- Hexadecimal colors with transparency, and references to variables in color functions. -/
def extended : Primitives :=
  { colorHex := tokenThat .hash (isHexColor [3, 4, 6, 8])
    colorFunctions :=
      variableColorFunctions standard.reference standard.integer standard.number
        standard.percentage }

end Primitives

end CssSieve
