import CssSieve.Grammar.Primitives

/-!
# Transforms, transitions and animations
-/

namespace CssSieve.Property

open Grammar

/-! ## Transforms -/

/-- A rotation, which may be a bare zero. -/
def rotation (p : Primitives) : Grammar := oneOf [p.zero, p.angle]

def planeFunctions (p : Primitives) : List Grammar :=
  let n := p.number
  let lp := p.lengthPercentage
  let a := rotation p
  [function "matrix" (commaBetween n 6 6),
    function "rotate" a,
    function "scale" (commaBetween n 1 2),
    function "scaleX" n,
    function "scaleY" n,
    function "skew" (commaBetween a 1 2),
    function "skewX" a,
    function "skewY" a,
    function "translate" (commaBetween lp 1 2),
    function "translateX" lp,
    function "translateY" lp]

def spaceFunctions (p : Primitives) : List Grammar :=
  let n := p.number
  let l := p.length
  let lp := p.lengthPercentage
  let a := rotation p
  [function "matrix3d" (commaBetween n 16 16),
    function "perspective" l,
    function "rotate3d" (commaSeq [n, n, n, a]),
    function "rotateX" a,
    function "rotateY" a,
    function "rotateZ" a,
    function "scale3d" (commaBetween n 3 3),
    function "scaleZ" n,
    function "translate3d" (commaSeq [lp, lp, l]),
    function "translateZ" lp]

/-- The functions that transform in the plane, and in space if asked for. -/
def transformFunctions (p : Primitives) (inSpace : Bool) : List Grammar :=
  planeFunctions p ++ if inSpace then spaceFunctions p else []

def transform (p : Primitives) (inSpace : Bool) : Grammar :=
  oneOf [word "none", atLeastOne (oneOf (transformFunctions p inSpace))]

def transforms (p : Primitives) : List (String × Grammar) :=
  [("transform", transform p false),
    ("transform-origin", seq [p.position, optional p.length]),
    ("perspective", oneOf [word "none", p.length]),
    ("perspective-origin", p.position),
    ("backface-visibility", keyword ["visible", "hidden"])]

/-! ## Transitions and animations -/

def transitions (p : Primitives) : List (String × Grammar) :=
  let property := anyToken .ident
  [("transition-property", oneOf [word "none", commaList property 1]),
    ("transition-duration", commaList p.time 1),
    ("transition-delay", commaList p.time 1),
    ("transition-timing-function", commaList p.easing 1),
    ("transition", commaList (someOf [property, p.time, p.easing, p.time]) 1)]

def animations (p : Primitives) : List (String × Grammar) :=
  let count := oneOf [word "infinite", p.number]
  let direction := keyword ["normal", "reverse", "alternate", "alternate-reverse"]
  let fillMode := keyword ["none", "forwards", "backwards", "both"]
  let playState := keyword ["running", "paused"]
  let name := oneOf [word "none", p.customIdent, p.string]
  [("animation-name", commaList name 1),
    ("animation-duration", commaList p.time 1),
    ("animation-delay", commaList p.time 1),
    ("animation-timing-function", commaList p.easing 1),
    ("animation-iteration-count", commaList count 1),
    ("animation-direction", commaList direction 1),
    ("animation-fill-mode", commaList fillMode 1),
    ("animation-play-state", commaList playState 1),
    ("animation",
      commaList
        (someOf [p.time, p.easing, p.time, count, direction, fillMode, playState, name]) 1)]

end CssSieve.Property
