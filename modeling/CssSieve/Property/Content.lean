import CssSieve.Grammar.Primitives

/-!
# Lists and generated content
-/

namespace CssSieve.Property

open Grammar

def listStyles (p : Primitives) : List (String × Grammar) :=
  let type :=
    oneOf
      [keyword
        ["disc", "circle", "square", "decimal", "decimal-leading-zero", "lower-roman",
          "upper-roman", "lower-alpha", "upper-alpha", "lower-latin", "upper-latin",
          "lower-greek", "none"],
        p.string]
  let position := keyword ["inside", "outside"]
  let image := oneOf [word "none", p.image]
  [("list-style-type", type),
    ("list-style-position", position),
    ("list-style-image", image),
    ("list-style", someOf [position, image, type])]

def generatedContent (p : Primitives) : List (String × Grammar) :=
  [("content",
    oneOf
      [keyword ["normal", "none"],
        atLeastOne
          (oneOf
            [p.string, p.image, function "counter" p.customIdent, function "attr" p.customIdent,
              keyword ["open-quote", "close-quote", "no-open-quote", "no-close-quote"]])])]

end CssSieve.Property
