import CssSieve.Grammar.Basic

/-!
# Selectors

Selectors are matched by the same searches as property values. Where CSS forbids white space,
inside a compound selector and behind `.` or `:`, the grammar says so; everywhere else white space
is passed over, and a descendant combinator is nothing but one compound selector after another.

Grammars are finite, so selectors inside `:not()`, `:is()`, `:where()` and `:has()` nest only to a
fixed depth.
-/

namespace CssSieve.Selector

open Grammar

/-- How deeply selectors nest in the arguments of pseudo-classes. -/
def maxNesting : Nat := 3

def ident : Grammar := anyToken .ident

def colon : Grammar := anyToken .colon

/-- The type or universal selector. -/
def typeSelector : Grammar := oneOf [ident, delim ['*']]

def classSelector : Grammar := touching (delim ['.']) ident

/-- Whether a hash is an identifier. -/
def isIdHash (t : Token) : Bool := t.hashFlag? == some .id

def idSelector : Grammar := tokenThat .hash isIdHash

/-- `[name]`, or with an operator, a value and a flag for its case. -/
def attributeSelector : Grammar :=
  let operator :=
    oneOf [touching (delim ['~', '|', '^', '$', '*']) (delim ['=']), delim ['=']]
  let value := oneOf [ident, anyToken .string]
  block '[' (seq [ident, optional (seq [operator, value, optional (keyword ["i", "s"])])])

/-- Whether an identifier is anything but the word `of`. -/
def isNotOf (t : Token) : Bool :=
  match t.text? with
  | some w => !Text.caseless w "of"
  | none => false

/-- `an+b`, which a tokenizer cuts into up to four pieces. -/
def anPlusB : Grammar :=
  between
    (oneOf
      [tokenThat .ident isNotOf, anyToken .number, anyToken .dimension, delim ['+', '-']])
    1 4

/-- The arguments of the pseudo-classes that count siblings. -/
def nthArguments : Option Grammar → Grammar
  | some selectors => seq [anPlusB, optional (seq [word "of", selectors])]
  | none => anPlusB

/-- A pseudo-class with any identifier for a name, or one of the functions known here. The grammars
given are those of selector arguments; without them there are no functions that take selectors. -/
def pseudoClass (selectors relative : Option Grammar) : Grammar :=
  let plain :=
    [function "nth-child" (nthArguments selectors),
      function "nth-last-child" (nthArguments selectors),
      function "nth-of-type" (nthArguments none),
      function "nth-last-of-type" (nthArguments none),
      function "lang" (commaList (oneOf [ident, anyToken .string]) 1),
      function "dir" (keyword ["ltr", "rtl"])]
  let taking :=
    match selectors with
    | some g => ["not", "is", "where", "matches"].map (function · g)
    | none => []
  let having := relative.toList.map (function "has" ·)
  touching colon (oneOf (plain ++ taking ++ having ++ [ident]))

def pseudoElement (compound : Option Grammar) : Grammar :=
  let slotted := compound.toList.map (function "slotted" ·)
  touching (touching colon colon) (oneOf (function "part" (atLeastOne ident) :: slotted ++ [ident]))

def combinator : Grammar :=
  oneOf [delim ['>', '+', '~'], touching (delim ['|']) (delim ['|'])]

/-- The grammars of one depth of nesting. -/
structure Level where
  compound : Grammar
  complex : Grammar
  list : Grammar
  /-- A list of selectors that may begin with a combinator. -/
  relativeList : Grammar

/-- The grammars that take selectors of the given level as arguments. -/
def level (inner : Option Level) : Level :=
  let subclass :=
    oneOf
      [classSelector, idSelector, attributeSelector, pseudoElement (inner.map (·.compound)),
        pseudoClass (inner.map (·.list)) (inner.map (·.relativeList))]
  let compound :=
    seq [oneOf [typeSelector, subclass], many (seq [noWhitespace, subclass])]
  let complex := seq [compound, many (seq [optional combinator, compound])]
  { compound, complex
    list := commaList complex 1
    relativeList := commaList (seq [optional combinator, complex]) 1 }

/-- The grammars that nest to a depth. -/
def nested : Nat → Level
  | 0 => level none
  | n + 1 => level (some (nested n))

/-- The prelude of a style rule. -/
def list : Grammar := (nested maxNesting).list

/-- A single selector. -/
def complex : Grammar := (nested maxNesting).complex

/-- The prelude of a keyframe. -/
def keyframeList : Grammar :=
  commaList (oneOf [keyword ["from", "to"], tokenThat .percentage (Token.valueIn 0 100)]) 1

/-- The prelude of a page rule, which may be empty. -/
def pageList : Grammar :=
  let pseudoPage := touching colon (keyword ["left", "right", "first", "blank"])
  let more := many (seq [noWhitespace, pseudoPage])
  optional (commaList (oneOf [seq [ident, more], seq [pseudoPage, more]]) 1)

end CssSieve.Selector
