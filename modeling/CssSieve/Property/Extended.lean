import CssSieve.Property.Standard

/-!
# Extensions of the standard registries

Each extension replaces grammars outright, or adds properties and fails if one of them is known
already. `templateExtensions` lists those for style rules in the order of their application.
-/

namespace CssSieve.Property

open Grammar

/-! ## Replacements -/

/-- A color, or a reference to a variable. -/
def colorOrReference (p : Primitives) : Grammar := oneOf [p.color, p.reference]

/-- Backgrounds cut off at text; borders and shadows whose color is a reference. -/
def borderBackground : Extension := fun r p =>
  .ok () (r.insertAll
    [("background-origin", boxKeywords),
      ("background-clip", oneOf [boxKeywords, keyword ["text", "border-area"]]),
      ("border", someOf [lineStyle, lineWidth p, colorOrReference p]),
      ("box-shadow", boxShadowOf p (colorOrReference p))])

/-- The word `fit-content` and the function `clamp()` for sizes. -/
def sizingFunctions : Extension := fun r p =>
  let bound :=
    oneOf
      [p.length, p.lengthPercentage, p.frequency, p.angle, p.anglePercentage, p.time, p.number,
        p.integer]
  .ok () (r.insertAll (sizes p [word "fit-content", function "clamp" (commaBetween bound 3 3)]))

/-- Transforms in space. -/
def spaceTransforms : Extension := fun r p =>
  .ok () (r.insertAll
    [("transform", transform p true), ("transform-style", keyword ["flat", "preserve-3d"])])

def transitionBehavior : Extension := fun r _ =>
  .ok () (r.insertAll [("transition-behavior", keyword ["normal", "allow-discrete"])])

/-- Metrics of a font that replace its own, and what is shown until it is loaded. -/
def fontMetricOverrides : Extension := fun r p =>
  let metric := oneOf [word "normal", p.percentage]
  .ok () (r.insertAll
    [("ascent-override", metric), ("descent-override", metric), ("line-gap-override", metric),
      ("size-adjust", metric),
      ("font-display", keyword ["auto", "block", "swap", "fallback", "optional"])])

/-! ## Additions -/

def imageRendering : Extension := fun r _ =>
  r.add [("image-rendering", keyword ["auto", "crisp-edges", "pixelated"])]

def ruby : Extension := fun r _ =>
  r.add
    [("ruby-position", keyword ["start", "center", "space-between", "space-around"]),
      ("ruby-align", keyword ["over", "under", "inter-character"])]

def pointerEvents : Extension := fun r _ =>
  r.add
    [("pointer-events",
      keyword
        ["auto", "none", "visiblePainted", "visibleFill", "visibleStroke", "visible", "painted",
          "fill", "stroke", "all"])]

/-- Margins and padding for scrolling, each a single length. -/
def scrollSpacing : Extension := fun r p =>
  let sides :=
    ["-block-end", "-block-start", "-block", "-bottom", "-inline-end", "-inline-start", "-inline",
      "-left", "-right", "-top", ""]
  r.add (["scroll-margin", "scroll-padding"].flatMap fun shorthand =>
    sides.map fun side => (shorthand ++ side, p.length))

def aspectRatio : Extension := fun r p =>
  r.add
    [("aspect-ratio",
      oneOf [p.wideKeywords, seq [p.number, optional (seq [delim ['/'], p.number])]])]

def inset : Extension := fun r p =>
  let offset := autoOrLength p
  r.add
    [("inset", between offset 1 4),
      ("inset-block", between offset 1 2),
      ("inset-block-end", offset),
      ("inset-block-start", offset),
      ("inset-inline", between offset 1 2),
      ("inset-inline-end", offset),
      ("inset-inline-start", offset)]

/-- Filters behind a box: one or more values of the property `filter`, which has to be known. -/
def backdropFilter : Extension := fun r _ =>
  match r.require "filter" with
  | .ok filter => r.add [("backdrop-filter", atLeastOne filter)]
  | .error e => .error e r

def contentVisibility : Extension := fun r _ =>
  r.add [("content-visibility", keyword ["visible", "auto", "hidden"])]

/-! ## The extended registries -/

/-- The extensions for style rules, labelled, in the order of their application. -/
def templateExtensions : List (String × Extension) :=
  [("border-background", borderBackground),
    ("sizing-functions", sizingFunctions),
    ("transforms", spaceTransforms),
    ("transition-behavior", transitionBehavior),
    ("image-rendering", imageRendering),
    ("ruby", ruby),
    ("pointer-events", pointerEvents),
    ("scroll-spacing", scrollSpacing),
    ("aspect-ratio", aspectRatio),
    ("inset", inset),
    ("backdrop-filter", backdropFilter),
    ("content-visibility", contentVisibility)]

/-- The extensions for the descriptors of `@font-face`. -/
def fontFaceExtensions : List (String × Extension) :=
  [("font-metric-overrides", fontMetricOverrides)]

/-- The standard properties with every extension, and the warnings about those left out. -/
def extendedWithWarnings (p : Primitives) : Registry × List Warning :=
  (standard p).extendAll p templateExtensions

/-- The standard properties with every extension. -/
def extended (p : Primitives) : Registry := (extendedWithWarnings p).1

/-- The descriptors of `@font-face` with every extension. -/
def extendedFontFace (p : Primitives) : Registry :=
  ((fontFace p).extendAll p fontFaceExtensions).1

/-! ## References anywhere -/

/-- One ordinary value, of the kinds that may stand beside a reference to a variable. -/
def ordinaryValue (p : Primitives) : Grammar :=
  oneOf
    [p.color, p.image, p.length, p.integer, p.percentage, p.number, p.angle, p.frequency,
      p.resolution, p.position, p.easing, p.comma, p.wideKeywords,
      keyword ["solid", "double", "dotted", "dashed", "wavy"]]

/-- A reference to a variable with at most one value to fall back on. -/
def referenceWithFallback (p : Primitives) : Grammar :=
  function "var"
    (seq
      [customProperty, optional (seq [p.comma, oneOf [ordinaryValue p, p.reference]])])

/-- The words that every property accepts, or any run of ordinary values with a reference among
them. What such a reference stands for is not known yet, so no grammar of a property can judge the
value. -/
def referenceAnywhere (p : Primitives) : Grammar :=
  let run := many (oneOf [referenceWithFallback p, ordinaryValue p])
  oneOf [p.wideKeywords, seq [run, referenceWithFallback p, run]]

end CssSieve.Property
