import CssSieve.Grammar.Primitives

/-!
# Flexible boxes
-/

namespace CssSieve.Property

open Grammar

def flexDirection : Grammar := keyword ["row", "row-reverse", "column", "column-reverse"]

def flexWrap : Grammar := keyword ["nowrap", "wrap", "wrap-reverse"]

def flexBasis (p : Primitives) : Grammar :=
  oneOf [keyword ["content", "auto", "min-content", "max-content"], p.lengthPercentage]

def baseline : Grammar := seq [optional (keyword ["first", "last"]), word "baseline"]

def contentPosition : Grammar :=
  keyword ["center", "start", "end", "flex-start", "flex-end", "left", "right"]

def distribution : Grammar := keyword ["space-between", "space-around", "space-evenly", "stretch"]

def selfPosition : Grammar :=
  keyword ["center", "start", "end", "self-start", "self-end", "flex-start", "flex-end"]

def flexBoxes (p : Primitives) : List (String × Grammar) :=
  let gap := oneOf [word "normal", p.lengthPercentage]
  [("flex-direction", flexDirection),
    ("flex-wrap", flexWrap),
    ("flex-flow", someOf [flexDirection, flexWrap]),
    ("flex-grow", p.number),
    ("flex-shrink", p.number),
    ("flex-basis", flexBasis p),
    ("flex",
      oneOf [word "none", someOf [seq [p.number, optional p.number], flexBasis p]]),
    ("order", p.integer),
    ("justify-content", oneOf [word "normal", contentPosition, distribution]),
    ("align-content", oneOf [word "normal", baseline, contentPosition, distribution]),
    ("align-items", oneOf [keyword ["normal", "stretch"], baseline, selfPosition]),
    ("align-self", oneOf [keyword ["auto", "normal", "stretch"], baseline, selfPosition]),
    ("row-gap", gap),
    ("column-gap", gap),
    ("gap", between gap 1 2)]

end CssSieve.Property
