import CssSieve.Grammar.Primitives

/-!
# Fonts

The properties that choose a font, and the descriptors inside `@font-face` that offer one.
-/

namespace CssSieve.Property

open Grammar

/-! ## Shared by properties and descriptors -/

/-- A font family by its name: a string, or one or more words. -/
def familyName (p : Primitives) : Grammar := oneOf [p.string, atLeastOne p.customIdent]

def fontWeightAbsolute : Grammar :=
  oneOf [keyword ["normal", "bold"], tokenThat .number (Token.valueIn 1 1000)]

def fontStretchKeywords : Grammar :=
  keyword
    ["normal", "ultra-condensed", "extra-condensed", "condensed", "semi-condensed",
      "semi-expanded", "expanded", "extra-expanded", "ultra-expanded"]

def fontFeatureSettings (p : Primitives) : Grammar :=
  oneOf
    [word "normal",
      commaList (seq [p.string, optional (oneOf [p.integer, keyword ["on", "off"]])]) 1]

def fontVariant : Grammar :=
  oneOf
    [keyword ["normal", "none"],
      someOf
        [keyword
          ["small-caps", "all-small-caps", "petite-caps", "all-petite-caps", "unicase",
            "titling-caps"],
          keyword ["lining-nums", "oldstyle-nums"],
          keyword ["proportional-nums", "tabular-nums"],
          keyword ["diagonal-fractions", "stacked-fractions"],
          word "ordinal",
          word "slashed-zero",
          keyword ["common-ligatures", "no-common-ligatures"],
          keyword ["discretionary-ligatures", "no-discretionary-ligatures"]]]

/-! ## Properties -/

def fontFamily (p : Primitives) : Grammar :=
  let generic :=
    keyword
      ["serif", "sans-serif", "monospace", "cursive", "fantasy", "system-ui", "ui-serif",
        "ui-sans-serif", "ui-monospace", "math"]
  commaList (oneOf [generic, familyName p]) 1

def fontSize (p : Primitives) : Grammar :=
  oneOf
    [keyword
      ["xx-small", "x-small", "small", "medium", "large", "x-large", "xx-large", "xxx-large",
        "larger", "smaller"],
      p.lengthPercentage]

def fontStyle (p : Primitives) : Grammar :=
  oneOf [keyword ["normal", "italic"], seq [word "oblique", optional p.angle]]

def fontWeight : Grammar := oneOf [fontWeightAbsolute, keyword ["bolder", "lighter"]]

def fontStretch (p : Primitives) : Grammar := oneOf [fontStretchKeywords, p.percentage]

def lineHeight (p : Primitives) : Grammar := oneOf [word "normal", p.number, p.lengthPercentage]

/-- The shorthand: a system font, or style, size, line height and families. -/
def fontShorthand (p : Primitives) : Grammar :=
  oneOf
    [keyword ["caption", "icon", "menu", "message-box", "small-caption", "status-bar"],
      seq
        [optional (someOf [fontStyle p, word "small-caps", fontWeight, fontStretch p]),
          fontSize p, optional (seq [delim ['/'], lineHeight p]), fontFamily p]]

def fonts (p : Primitives) : List (String × Grammar) :=
  [("font-family", fontFamily p),
    ("font-size", fontSize p),
    ("font-style", fontStyle p),
    ("font-weight", fontWeight),
    ("font-stretch", fontStretch p),
    ("font-variant", fontVariant),
    ("font-feature-settings", fontFeatureSettings p),
    ("line-height", lineHeight p),
    ("font", fontShorthand p)]

/-! ## Descriptors -/

/-- A range of code points. A tokenizer cuts it into pieces, which have to touch; the code points
are not checked. -/
def unicodeRange : Grammar :=
  let piece :=
    oneOf [delim ['+', '?', '-'], anyToken .ident, anyToken .number, anyToken .dimension]
  seq [word "u", atLeastOne (seq [noWhitespace, piece])]

/-- Where a font comes from: urls with hints, or the name of an installed font. -/
def fontSource (p : Primitives) : Grammar :=
  let format := function "format" (commaList (oneOf [p.string, p.customIdent]) 1)
  let technology := function "tech" (commaList p.customIdent 1)
  commaList
    (oneOf
      [seq [p.url, optional format, optional technology], function "local" (familyName p)])
    1

def fontFaceDescriptors (p : Primitives) : List (String × Grammar) :=
  [("font-family", familyName p),
    ("src", fontSource p),
    ("font-style",
      oneOf
        [keyword ["normal", "italic"], seq [word "oblique", optional (between p.angle 1 2)]]),
    ("font-weight", oneOf [word "auto", between fontWeightAbsolute 1 2]),
    ("font-stretch",
      oneOf [word "auto", between (oneOf [fontStretchKeywords, p.percentage]) 1 2]),
    ("unicode-range", commaList unicodeRange 1),
    ("font-variant", fontVariant),
    ("font-feature-settings", fontFeatureSettings p)]

end CssSieve.Property
