import CssSieve.Grammar.Primitives

/-!
# Text and its decoration
-/

namespace CssSieve.Property

open Grammar

def textLayout (p : Primitives) : List (String × Grammar) :=
  let spacing := oneOf [word "normal", p.length]
  [("text-align",
      keyword ["start", "end", "left", "right", "center", "justify", "match-parent"]),
    ("text-transform", keyword ["none", "capitalize", "uppercase", "lowercase", "full-width"]),
    ("text-indent", p.lengthPercentage),
    ("text-overflow", keyword ["clip", "ellipsis"]),
    ("letter-spacing", spacing),
    ("word-spacing", spacing),
    ("white-space",
      keyword ["normal", "pre", "nowrap", "pre-wrap", "break-spaces", "pre-line"]),
    ("word-break", keyword ["normal", "keep-all", "break-all", "break-word"]),
    ("overflow-wrap", keyword ["normal", "break-word", "anywhere"]),
    ("hyphens", keyword ["none", "manual", "auto"]),
    ("direction", keyword ["ltr", "rtl"]),
    ("unicode-bidi",
      keyword
        ["normal", "embed", "isolate", "bidi-override", "isolate-override", "plaintext"]),
    ("writing-mode",
      keyword ["horizontal-tb", "vertical-rl", "vertical-lr", "sideways-rl", "sideways-lr"])]

def textDecoration (p : Primitives) : List (String × Grammar) :=
  let line :=
    oneOf [word "none", someOf [word "underline", word "overline", word "line-through"]]
  let style := keyword ["solid", "double", "dotted", "dashed", "wavy"]
  [("text-decoration-line", line),
    ("text-decoration-style", style),
    ("text-decoration-color", p.color),
    ("text-decoration", someOf [line, style, p.color]),
    ("text-shadow",
      oneOf
        [word "none", commaList (allOf [between p.length 2 3, optional p.color]) 1])]

end CssSieve.Property
